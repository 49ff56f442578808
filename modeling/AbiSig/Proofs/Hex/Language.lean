import AbiSig.Proofs.Hex.Retyped
import AbiSig.Proofs.Text.Quoted
import Mathlib.Data.List.Basic

/-!
# The texts that are read as bytes

Which texts are read as `n` bytes, as which bytes, and what is said of the others. A text is reduced to
its bare form first: the blanks around it are trimmed, and one mark in front is dropped.

1. **Bare forms**: `Bare` says this without `trim` and `dropMark`, and every text has exactly one bare
   form (`bare_iff`).
2. **Digits**: a hexadecimal digit is one byte of text, and no other character has such a byte in its
   encoding (`mem_hexDigits_of_bytes`). So it does not matter whether characters or bytes are counted
   and looked at.
3. **Decoding**: the bare forms that are read as bytes are the digits for these bytes
   (`exists_decode_utf8Bytes_iff`, `digits_of_decode`). Any other is refused for its length, or else
   for its first byte that is no digit, and the wording of the fault says so (`Refused`,
   `refused_of_decode`).

`hexReadings` states this for selectors and for digests, and that no text is read as both.
-/

namespace AbiSig.Hex

open Text

variable {n : Nat} {c : Char} {b : UInt8} {as bs text digits : List Char} {bytes : List UInt8}
  {fault : HexFault}

/-! ## Bare forms -/

/-- `digits` is the text without the blanks around it and without one mark in front. Of a text that
begins with a mark this mark is taken. -/
inductive Bare (text digits : List Char) : Prop where
  | intro (left mark right : List Char) (hmark : mark ∈ marks)
      (htext : text = left ++ ((mark ++ digits) ++ right))
      (hleft : ∀ c ∈ left, isBlank c = true) (hright : ∀ c ∈ right, isBlank c = true)
      (hhead : ∀ c ∈ (mark ++ digits).head?, isBlank c = false)
      (hlast : ∀ c ∈ (mark ++ digits).getLast?, isBlank c = false)
      (htaken : mark = [] → ∀ other ∈ marks, other <+: digits → other = [])

/-- A mark is dropped, or there is none. -/
theorem exists_mark (cs : List Char) :
    ∃ mark ∈ marks, cs = mark ++ dropMark cs ∧
      (mark = [] → ∀ other ∈ marks, other <+: dropMark cs → other = []) := by
  unfold dropMark
  split
  · exact ⟨['0', 'x'], by decide, rfl, by simp⟩
  · exact ⟨['0', 'X'], by decide, rfl, by simp⟩
  · next hx hX =>
    refine ⟨[], by decide, rfl, ?_⟩
    intro _ other hother hprefix
    obtain ⟨rest, rfl⟩ := hprefix
    simp only [marks, List.mem_cons, List.not_mem_nil, or_false] at hother
    rcases hother with rfl | rfl | rfl
    · rfl
    · exact absurd rfl (hx rest)
    · exact absurd rfl (hX rest)

theorem dropMark_append {mark : List Char} (hmark : mark ∈ marks)
    (htaken : mark = [] → ∀ other ∈ marks, other <+: digits → other = []) :
    dropMark (mark ++ digits) = digits := by
  simp only [marks, List.mem_cons, List.not_mem_nil, or_false] at hmark
  rcases hmark with rfl | rfl | rfl
  · -- the mark that would be dropped is in front of the digits
    obtain ⟨other, hother, heq, -⟩ := exists_mark digits
    have hnil := htaken rfl other hother ⟨dropMark digits, heq.symm⟩
    rw [hnil] at heq
    exact heq.symm
  · rfl
  · rfl

/-- Every text has one bare form. -/
theorem bare_iff : Bare text digits ↔ digits = dropMark (trim text) := by
  constructor
  · rintro ⟨left, mark, right, hmark, rfl, hleft, hright, hhead, hlast, htaken⟩
    rw [trim_between hleft hright, trim_eq_self hhead hlast, dropMark_append hmark htaken]
  · rintro rfl
    obtain ⟨left, right, hleft, hright, htext⟩ := exists_eq_append_trim text
    obtain ⟨mark, hmark, heq, htaken⟩ := exists_mark (trim text)
    obtain ⟨hhead, hlast⟩ := trim_eq_self_iff.1 (trim_trim text)
    rw [heq] at htext hhead hlast
    exact ⟨left, mark, right, hmark, htext, hleft, hright, hhead, hlast, htaken⟩

/-! ## Digits and their bytes -/

/-- The hexadecimal digits, with the letters in both cases. -/
def hexDigits : List Char :=
  "0123456789abcdefABCDEF".toList

/-- The bytes that digits have as text. -/
def digitBytes : List UInt8 :=
  utf8Bytes hexDigits

/-- What is to be known of the characters and of the bytes of digits. -/
theorem hexDigits_table :
    (∀ c ∈ hexDigits, ∃ k < 16, IsDigit k c) ∧
      (∀ c ∈ hexDigits, ∃ b ∈ digitBytes, String.utf8EncodeChar c = [b]) ∧
      ∀ b ∈ digitBytes, b.toNat < 128 ∧ Char.ofNat b.toNat ∈ hexDigits := by
  unfold IsDigit
  decide +kernel

/-- The bytes that have a value are those of digits. -/
theorem isSome_digitValue?_iff : (digitValue? b).isSome = true ↔ b ∈ digitBytes := by
  have htable : ∀ k < 256, (digitValue? (UInt8.ofNat k)).isSome = true ↔
      UInt8.ofNat k ∈ digitBytes := by decide +kernel
  have hb := htable b.toNat b.toNat_lt
  rwa [UInt8.ofNat_toNat] at hb

/-- A byte below 128 is a character by itself. -/
theorem toNat_eq_of_mem_utf8EncodeChar (hb : b.toNat < 128) (h : b ∈ String.utf8EncodeChar c) :
    c.toNat = b.toNat := by
  -- the bytes of a longer encoding are all at least 128
  have hlow (k : Nat) (hk : 128 ≤ k) (hlt : k < 256) : b ≠ UInt8.ofNat k := by
    rintro rfl
    rw [UInt8.toNat_ofNat', Nat.mod_eq_of_lt hlt] at hb
    omega
  unfold String.utf8EncodeChar at h
  simp only at h
  split at h
  · next hc =>
    rw [List.mem_singleton] at h
    rw [h, UInt8.toNat_ofNat', Nat.mod_eq_of_lt (by omega)]
    rfl
  · exfalso
    split at h
    · simp only [List.mem_cons, List.not_mem_nil, or_false] at h
      rcases h with h | h <;> exact hlow _ (by omega) (by omega) h
    · split at h
      · simp only [List.mem_cons, List.not_mem_nil, or_false] at h
        rcases h with h | h | h <;> exact hlow _ (by omega) (by omega) h
      · simp only [List.mem_cons, List.not_mem_nil, or_false] at h
        rcases h with h | h | h | h <;> exact hlow _ (by omega) (by omega) h

/-- Only digits have bytes of digits. -/
theorem mem_hexDigits_of_bytes (h : ∀ b ∈ utf8Bytes digits, b ∈ digitBytes) :
    ∀ c ∈ digits, c ∈ hexDigits := by
  intro c hc
  obtain ⟨b, hb⟩ := List.exists_mem_of_ne_nil _ (String.utf8EncodeChar_ne_nil (c := c))
  have hdigit : b ∈ digitBytes := h b (List.mem_flatMap.2 ⟨c, hc, hb⟩)
  obtain ⟨hlt, hchar⟩ := hexDigits_table.2.2 b hdigit
  rwa [← toNat_eq_of_mem_utf8EncodeChar hlt hb, Char.ofNat_toNat] at hchar

/-- Digits have one byte each. -/
theorem bytes_of_hexDigits (h : ∀ c ∈ digits, c ∈ hexDigits) :
    (utf8Bytes digits).length = digits.length ∧ ∀ b ∈ utf8Bytes digits, b ∈ digitBytes := by
  induction digits with
  | nil => simp
  | cons c digits ih =>
    rw [List.forall_mem_cons] at h
    obtain ⟨hlength, hbytes⟩ := ih h.2
    obtain ⟨b, hb, hencode⟩ := hexDigits_table.2.1 c h.1
    rw [utf8Bytes_cons, hencode, List.singleton_append, List.length_cons, List.length_cons, hlength,
      List.forall_mem_cons]
    exact ⟨rfl, hb, hbytes⟩

/-! ## Digits for bytes -/

/-- What is written for bytes are sixteen characters. -/
theorem exists_of_mem_encode (h : c ∈ encode bytes) : ∃ k < 16, c = Nat.digitChar k := by
  obtain ⟨b, -, hc⟩ := List.mem_flatMap.1 h
  have hb : b.toNat < 256 := b.toNat_lt
  rcases List.mem_pair.1 hc with rfl | rfl
  · exact ⟨_, by omega, rfl⟩
  · exact ⟨_, by omega, rfl⟩

/-- These are hexadecimal digits. -/
theorem mem_hexDigits_of_mem_encode (h : c ∈ encode bytes) : c ∈ hexDigits := by
  have htable : ∀ k < 16, Nat.digitChar k ∈ hexDigits := by decide
  obtain ⟨k, hk, rfl⟩ := exists_of_mem_encode h
  exact htable k hk

/-- An even number of digits are digits for bytes. -/
theorem exists_digits (h : ∀ c ∈ digits, c ∈ hexDigits) (hlength : digits.length = 2 * n) :
    ∃ bytes, bytes.length = n ∧ Digits bytes digits := by
  induction n generalizing digits with
  | zero =>
    rw [Nat.mul_zero, List.length_eq_zero_iff] at hlength
    subst hlength
    exact ⟨[], rfl, .nil⟩
  | succ n ih =>
    -- the first two digits make a byte
    obtain _ | ⟨high, _ | ⟨low, rest⟩⟩ := digits
    · simp at hlength
    · simp at hlength
      omega
    rw [List.forall_mem_cons, List.forall_mem_cons] at h
    obtain ⟨j, hj, hhigh⟩ := hexDigits_table.1 high h.1
    obtain ⟨k, hk, hlow⟩ := hexDigits_table.1 low h.2.1
    obtain ⟨bytes, hbytes, hrest⟩ := ih h.2.2 (by simp only [List.length_cons] at hlength; omega)
    have hbyte : (UInt8.ofNat (16 * j + k)).toNat = 16 * j + k := by
      rw [UInt8.toNat_ofNat']
      omega
    refine ⟨UInt8.ofNat (16 * j + k) :: bytes, by rw [List.length_cons, hbytes], .cons ?_ ?_ hrest⟩
    · rw [hbyte, show (16 * j + k) / 16 = j by omega]
      exact hhigh
    · rw [hbyte, show (16 * j + k) % 16 = k by omega]
      exact hlow

/-- Digits for bytes, in lower case, are those that are printed. -/
theorem Digits.map_toLower (h : Digits bytes digits) : digits.map Char.toLower = encode bytes := by
  have htable : ∀ k < 16, ∀ d ∈ [Nat.digitChar k, (Nat.digitChar k).toUpper],
      d.toLower = Nat.digitChar k := by decide
  induction h with
  | nil => rfl
  | @cons b high low bytes digits hhigh hlow _ ih =>
    have hb : b.toNat < 256 := b.toNat_lt
    rw [List.map_cons, List.map_cons, ih, htable _ (by omega) high hhigh.mem_table,
      htable _ (by omega) low hlow.mem_table]
    rfl

/-- The text is what is printed for bytes: a mark, and two digits for each byte, the high half first and
all letters small. -/
def Prints (bytes : List UInt8) (text : List Char) : Prop :=
  ∃ digits, text = '0' :: 'x' :: digits ∧ Digits bytes digits ∧ ∀ c ∈ digits, c.toLower = c

theorem prints_hexText (bytes : List UInt8) : Prints bytes (hexText bytes).toList := by
  have htable : ∀ k < 16, (Nat.digitChar k).toLower = Nat.digitChar k := by decide
  have hsame : LetterCase (encode bytes) (encode bytes) :=
    List.forall₂_same.2 fun _ _ => Or.inl rfl
  refine ⟨encode bytes, by rw [hexText, String.toList_ofList], Digits.of_letterCase hsame, ?_⟩
  intro c hc
  obtain ⟨k, hk, rfl⟩ := exists_of_mem_encode hc
  exact htable k hk

/-- Bytes are printed in one way only. -/
theorem Prints.eq (h : Prints bytes text) : text = (hexText bytes).toList := by
  obtain ⟨digits, rfl, hdigits, hsmall⟩ := h
  rw [hexText, String.toList_ofList, ← hdigits.map_toLower, List.map_congr_left hsmall, List.map_id']

/-- What is printed tells the bytes. -/
theorem Prints.inj {bytes' : List UInt8} (h : Prints bytes text) (h' : Prints bytes' text) :
    bytes = bytes' := by
  obtain ⟨digits, rfl, hdigits, -⟩ := h
  obtain ⟨digits', htext, hdigits', -⟩ := h'
  simp only [List.cons.injEq, true_and] at htext
  rw [← htext] at hdigits'
  exact hdigits.inj hdigits'

/-! ## Decoding -/

/-- Why digits are not read as `n` bytes, and how this is worded. There are too few or too many bytes of
text, and both numbers are named; or else one byte is the first that is no digit, and it is shown with
its position. -/
inductive Refused (n : Nat) (bs : List UInt8) : HexFault → String → Prop where
  | length (hlength : bs.length ≠ 2 * n) :
      Refused n bs (.length (2 * n) bs.length) s!"expected {2 * n} hex digits, got {bs.length}"
  | badDigit (front back : List UInt8) (b : UInt8) (shown : List Char) (hlength : bs.length = 2 * n)
      (hbs : bs = front ++ b :: back) (hfront : ∀ d ∈ front, d ∈ digitBytes) (hb : b ∉ digitBytes)
      (hshown : Quotation (Char.ofNat b.toNat) shown) :
      Refused n bs (.badDigit b front.length)
        s!"Invalid character {String.ofList shown} at position {front.length}"

theorem firstBadDigit?_eq_none_iff (position : Nat) {bs : List UInt8} :
    firstBadDigit? position bs = none ↔ ∀ b ∈ bs, b ∈ digitBytes := by
  fun_induction firstBadDigit? position bs with
  | case1 => simp
  | case2 position d ds hd =>
    have hbad : d ∉ digitBytes := by
      rw [← isSome_digitValue?_iff, hd]
      decide
    simp [hbad]
  | case3 position d ds v hd ih =>
    have hgood : d ∈ digitBytes := by
      rw [← isSome_digitValue?_iff, hd]
      rfl
    rw [ih, List.forall_mem_cons]
    simp [hgood]

theorem of_firstBadDigit?_eq_some {position q : Nat} {bs : List UInt8}
    (h : firstBadDigit? position bs = some (b, q)) :
    ∃ front back, bs = front ++ b :: back ∧ (∀ d ∈ front, d ∈ digitBytes) ∧ b ∉ digitBytes ∧
      q = position + front.length := by
  fun_induction firstBadDigit? position bs with
  | case1 => contradiction
  | case2 position d ds hd =>
    obtain ⟨rfl, rfl⟩ := Prod.mk.inj (Option.some.inj h)
    refine ⟨[], ds, rfl, by simp, ?_, rfl⟩
    rw [← isSome_digitValue?_iff, hd]
    decide
  | case3 position d ds v hd ih =>
    obtain ⟨front, back, rfl, hfront, hb, rfl⟩ := ih h
    refine ⟨d :: front, back, rfl, ?_, hb, by rw [List.length_cons]; omega⟩
    rw [List.forall_mem_cons, ← isSome_digitValue?_iff, hd]
    exact ⟨rfl, hfront⟩

/-- Bytes of text are decoded exactly if there are `2 * n` of them and all are digits. -/
theorem exists_decode_iff {bs : List UInt8} :
    (∃ v, decode n bs = .ok v) ↔ bs.length = 2 * n ∧ ∀ b ∈ bs, b ∈ digitBytes := by
  rw [← firstBadDigit?_eq_none_iff 0]
  unfold decode
  by_cases hlength : bs.length = 2 * n
  · rw [dif_pos hlength]
    split
    · next hbad => simp [hbad]
    · next hgood => exact ⟨fun _ => ⟨hlength, hgood⟩, fun _ => ⟨_, rfl⟩⟩
  · rw [dif_neg hlength]
    simp [hlength]

/-- Bytes of text that are refused are refused for what is wrong with them, and the fault says so. -/
theorem refused_of_decode {bs : List UInt8} (h : decode n bs = .error fault) :
    Refused n bs fault fault.reason := by
  unfold decode at h
  split at h
  · next hlength =>
    split at h
    · next b q hbad =>
      obtain ⟨front, back, hbs, hfront, hb, rfl⟩ := of_firstBadDigit?_eq_some hbad
      obtain rfl := Except.error.inj h
      rw [Nat.zero_add]
      exact .badDigit front back b _ hlength hbs hfront hb (quotation_quoted _)
    · contradiction
  · next hlength =>
    obtain rfl := Except.error.inj h
    exact .length hlength

/-- A text is decoded exactly if it is `2 * n` digits. -/
theorem exists_decode_utf8Bytes_iff :
    (∃ v, decode n (utf8Bytes digits) = .ok v) ↔
      digits.length = 2 * n ∧ ∀ c ∈ digits, c ∈ hexDigits := by
  rw [exists_decode_iff]
  constructor
  · rintro ⟨hlength, hbytes⟩
    have hdigits := mem_hexDigits_of_bytes hbytes
    rw [(bytes_of_hexDigits hdigits).1] at hlength
    exact ⟨hlength, hdigits⟩
  · rintro ⟨hlength, hdigits⟩
    obtain ⟨hsame, hbytes⟩ := bytes_of_hexDigits hdigits
    exact ⟨hsame.trans hlength, hbytes⟩

/-- The bytes that are decoded are those for which the text is the digits. -/
theorem digits_of_decode {v : Vector UInt8 n} (h : decode n (utf8Bytes digits) = .ok v) :
    Digits v.toList digits := by
  obtain ⟨hlength, hdigits⟩ := exists_decode_utf8Bytes_iff.1 ⟨v, h⟩
  obtain ⟨bytes, hbytes, hd⟩ := exists_digits hdigits hlength
  have hself : decode n (utf8Bytes digits) = .ok ⟨bytes.toArray, by rw [List.size_toArray, hbytes]⟩ :=
    Digits.decode hd
  rw [Except.ok.inj (h.symm.trans hself)]
  exact hd

/-! ## Selectors and digests -/

/-- How the values of a type, of `n` bytes each, are printed in hexadecimal, and which texts are read as
one of them. -/
structure Reading (n : Nat) {α : Type} (toHex : α → String)
    (parse : String → Except SignatureError α) : Prop where
  /-- A value is printed as a mark and `2 * n` digits. -/
  prints : ∀ v, ∃ digits, (toHex v).toList = '0' :: 'x' :: digits ∧ digits.length = 2 * n ∧
    ∀ c ∈ digits, c ∈ hexDigits
  /-- A printed value is read back, also between blanks, with either mark or none, and with its letters
  in any case. -/
  read_back : ∀ v typed left right, Retypes (toHex v).toList typed →
    (∀ c ∈ left, isBlank c = true) → (∀ c ∈ right, isBlank c = true) →
    parse (String.ofList (left ++ (typed ++ right))) = .ok v
  /-- A text is read exactly if its bare form is `2 * n` digits. -/
  accepts : ∀ text digits, Bare text.toList digits →
    ((∃ v, parse text = .ok v) ↔ digits.length = 2 * n ∧ ∀ c ∈ digits, c ∈ hexDigits)
  /-- What is read is printed as these digits in lower case. -/
  printed : ∀ text digits v, Bare text.toList digits → parse text = .ok v →
    toHex v = String.ofList ('0' :: 'x' :: digits.map Char.toLower)
  /-- Any other text is quoted as it was given, and what is wrong with its bare form is worded. -/
  refuses : ∀ text digits, Bare text.toList digits →
    ¬(digits.length = 2 * n ∧ ∀ c ∈ digits, c ∈ hexDigits) →
    ∃ fault, parse text = .error (.invalidHex text fault) ∧
      Refused n (utf8Bytes digits) fault fault.reason

theorem parse_of_bare (h : Bare text digits) : parse n text = decode n (utf8Bytes digits) := by
  rw [bare_iff.1 h]
  rfl

/-- A type whose values are `n` bytes, printed by `hexText` and read by `parse`. -/
theorem reading_of_bytes {α : Type} (bytes : α → Vector UInt8 n) (mk : Vector UInt8 n → α)
    {toHex : α → String} {parseText : String → Except SignatureError α}
    (hmk : ∀ v, mk (bytes v) = v) (hbytes : ∀ w, bytes (mk w) = w)
    (htoHex : ∀ v, toHex v = hexText (bytes v).toList)
    (hparse : ∀ text, parseText text =
      match parse n text.toList with
      | .ok w => .ok (mk w)
      | .error fault => .error (.invalidHex text fault)) : Reading n toHex parseText := by
  have haccepts (text : String) (digits : List Char) (hbare : Bare text.toList digits) :
      (∃ v, parseText text = .ok v) ↔ digits.length = 2 * n ∧ ∀ c ∈ digits, c ∈ hexDigits := by
    rw [← exists_decode_utf8Bytes_iff, ← parse_of_bare hbare, hparse]
    cases parse n text.toList with
    | ok w => simp
    | error fault => simp
  constructor
  case prints =>
    intro v
    refine ⟨encode (bytes v).toList, ?_, ?_, fun c => mem_hexDigits_of_mem_encode⟩
    · rw [htoHex, hexText, String.toList_ofList]
    · rw [length_encode, Vector.length_toList]
  case read_back =>
    intro v typed left right htyped hleft hright
    rw [htoHex] at htyped
    have hread : parse n (left ++ (typed ++ right)) = .ok (bytes v) := by
      rw [← parse_of_retypes htyped]
      unfold parse
      rw [trim_between hleft hright]
    simp only [hparse, String.toList_ofList, hread, hmk]
  case accepts => exact haccepts
  case printed =>
    intro text digits v hbare hv
    rw [hparse, parse_of_bare hbare] at hv
    cases hdecode : decode n (utf8Bytes digits) with
    | ok w =>
      rw [hdecode] at hv
      obtain rfl := Except.ok.inj hv
      rw [htoHex, hbytes, (digits_of_decode hdecode).map_toLower]
      rfl
    | error fault =>
      rw [hdecode] at hv
      contradiction
  case refuses =>
    intro text digits hbare hnot
    cases hdecode : decode n (utf8Bytes digits) with
    | ok w => exact absurd (exists_decode_utf8Bytes_iff.1 ⟨w, hdecode⟩) hnot
    | error fault =>
      refine ⟨fault, ?_, refused_of_decode hdecode⟩
      rw [hparse, parse_of_bare hbare, hdecode]

theorem reading_selector : Reading 4 Selector.toHex Selector.parse := by
  refine reading_of_bytes Selector.bytes Selector.mk (fun _ => rfl) (fun _ => rfl) (fun _ => rfl) ?_
  intro text
  unfold Selector.parse
  cases parse 4 text.toList with
  | ok w => rfl
  | error fault => rfl

theorem reading_digest : Reading 32 Digest.toHex Digest.parse := by
  refine reading_of_bytes Digest.bytes Digest.mk (fun _ => rfl) (fun _ => rfl) (fun _ => rfl) ?_
  intro text
  unfold Digest.parse
  cases parse 32 text.toList with
  | ok w => rfl
  | error fault => rfl

/-- A message that quotes a byte tells which byte it is. -/
theorem byte_of_quotation {b b' : UInt8} {shown : List Char}
    (h : Quotation (Char.ofNat b.toNat) shown) (h' : Quotation (Char.ofNat b'.toNat) shown) : b = b' := by
  have htable : ∀ k < 256, (Char.ofNat k).toNat = k := by decide +kernel
  have hchar (b : UInt8) : (Char.ofNat b.toNat).toNat = b.toNat := htable b.toNat b.toNat_lt
  have hlt (b : UInt8) : (Char.ofNat b.toNat).toNat < 256 := by
    rw [hchar]
    exact b.toNat_lt
  have hsame : Char.ofNat b.toNat = Char.ofNat b'.toNat := h.inj (hlt b) (hlt b') h'
  apply UInt8.toNat_inj.1
  rw [← hchar b, hsame, hchar b']

/-- Selectors and digests are printed and read in the same way, by their numbers of bytes. Every text
has one bare form, which decides how it is read, and so no text is read as both. The wording of a fault
tells which byte is no digit. -/
theorem hexReadings :
    (∀ text : List Char, ∃! digits, Bare text digits) ∧ Reading 4 Selector.toHex Selector.parse ∧
      Reading 32 Digest.toHex Digest.parse ∧
      (∀ text s d, Selector.parse text = .ok s → Digest.parse text ≠ .ok d) ∧
      ∀ (b b' : UInt8) (shown : List Char), Quotation (Char.ofNat b.toNat) shown →
        Quotation (Char.ofNat b'.toNat) shown → b = b' := by
  refine ⟨?_, reading_selector, reading_digest, ?_, fun _ _ _ => byte_of_quotation⟩
  · intro text
    exact ⟨dropMark (trim text), bare_iff.2 rfl, fun _ => bare_iff.1⟩
  · intro text s d hs hd
    have hbare : Bare text.toList (dropMark (trim text.toList)) := bare_iff.2 rfl
    -- eight digits are not 64
    have hselector := ((reading_selector.accepts text _ hbare).1 ⟨s, hs⟩).1
    have hdigest := ((reading_digest.accepts text _ hbare).1 ⟨d, hd⟩).1
    omega

/-- A selector with its other mark and some letters in the other case, between a no-break space and a
line feed; and a text of six characters whose bytes are eight, with the wording of its fault. -/
theorem hexReadings_retyped_and_multibyte :
    (∃ s, Selector.parse "\u00a00XA9059cBB\n" = .ok s ∧ s.toHex = "0xa9059cbb" ∧
      ∀ d, Digest.parse "\u00a00XA9059cBB\n" ≠ .ok d) ∧
    ∃ fault, Selector.parse "a9059€" = .error (.invalidHex "a9059€" fault) ∧
      Refused 4 (utf8Bytes "a9059€".toList) fault fault.reason ∧
      fault.reason = "Invalid character 'â' at position 5" := by
  obtain ⟨-, hselector, -, hboth, -⟩ := hexReadings
  have hretyped : Bare "\u00a00XA9059cBB\n".toList "A9059cBB".toList := bare_iff.2 (by decide +kernel)
  have hmultibyte : Bare "a9059€".toList "a9059€".toList := bare_iff.2 (by decide +kernel)
  obtain ⟨s, hs⟩ := (hselector.accepts _ _ hretyped).2 ⟨rfl, by decide⟩
  refine ⟨⟨s, hs, hselector.printed _ _ s hretyped hs, fun d => hboth _ s d hs⟩, ?_⟩
  obtain ⟨fault, hparse, hrefused⟩ := hselector.refuses _ _ hmultibyte (by decide)
  have hfault : Selector.parse "a9059€" = .error (.invalidHex "a9059€" (.badDigit 0xE2 5)) := by
    decide +kernel
  rw [hfault] at hparse
  obtain ⟨-, rfl⟩ := SignatureError.invalidHex.inj (Except.error.inj hparse)
  exact ⟨_, hfault, hrefused, by decide +kernel⟩

/-- One mark is dropped and no more, so a second one counts as two characters. -/
example : parse 4 " 0x0xa9059cbb".toList = .error (.length 8 10) := by decide +kernel

end AbiSig.Hex
