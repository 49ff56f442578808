import AbiSig.Text.Blank
import AbiSig.Text.Quoted
import AbiSig.Text.Utf8

/-!
# Hexadecimal bytes

`encode` writes bytes as lowercase digits, the high half of a byte first. `parse` reads exactly `n`
bytes from a text: blanks around the digits and one mark `0x` or `0X` before them are allowed, and
the digits may be of either case.

`parse` counts and numbers the digits in bytes of UTF-8. A wrong count is reported before a wrong
digit, and of several wrong digits the first.
-/

namespace AbiSig

open Text

/-- Why a text is not the hexadecimal form of the bytes asked for. -/
inductive HexFault where
  | length (expected got : Nat)
  | badDigit (digit : UInt8) (position : Nat)
deriving Repr, DecidableEq

/-- The wording of the fault; a wrong digit is shown as the character with the byte's value. -/
def HexFault.reason : HexFault → String
  | length expected got => s!"expected {expected} hex digits, got {got}"
  | badDigit digit position =>
    let shown := String.ofList (quoted (Char.ofNat digit.toNat))
    s!"Invalid character {shown} at position {position}"

namespace Hex

/-! ## Writing -/

/-- The two digits of a byte. -/
def encodeByte (b : UInt8) : List Char :=
  [Nat.digitChar (b.toNat / 16), Nat.digitChar (b.toNat % 16)]

/-- The digits of the bytes, in order. -/
def encode (bytes : List UInt8) : List Char :=
  bytes.flatMap encodeByte

@[simp]
theorem length_encode (bytes : List UInt8) : (encode bytes).length = 2 * bytes.length := by
  induction bytes with
  | nil => rfl
  | cons b bytes ih =>
    simp only [encode, List.flatMap_cons, List.length_append, List.length_cons] at ih ⊢
    simp only [encodeByte, List.length_cons, List.length_nil, ih]
    omega

/-! ## Reading -/

/-- The value of an ASCII digit of either case. -/
def digitValue? (d : UInt8) : Option UInt8 :=
  if 0x30 ≤ d ∧ d ≤ 0x39 then some (d - 0x30)
  else if 0x61 ≤ d ∧ d ≤ 0x66 then some (d - 0x57)
  else if 0x41 ≤ d ∧ d ≤ 0x46 then some (d - 0x37)
  else none

/-- The first byte that is no digit, and its position; the first byte has the position given. -/
def firstBadDigit? (position : Nat) : List UInt8 → Option (UInt8 × Nat)
  | [] => none
  | d :: ds =>
    match digitValue? d with
    | none => some (d, position)
    | some _ => firstBadDigit? (position + 1) ds

/-- The bytes that pairs of digits write; a byte that is no digit counts zero. -/
def joinDigits : List UInt8 → List UInt8
  | high :: low :: ds =>
    (16 * (digitValue? high).getD 0 + (digitValue? low).getD 0) :: joinDigits ds
  | _ => []

theorem length_joinDigits (ds : List UInt8) : (joinDigits ds).length = ds.length / 2 := by
  fun_induction joinDigits ds with
  | case1 high low ds ih => simp only [List.length_cons, ih]; omega
  | case2 ds h =>
    -- at most one digit is left over
    rcases ds with _ | ⟨a, _ | ⟨b, ds⟩⟩
    · rfl
    · simp
    · exact absurd rfl (h a b ds)

/-- Exactly `n` bytes from their digits. -/
def decode (n : Nat) (digits : List UInt8) : Except HexFault (Vector UInt8 n) :=
  if h : digits.length = 2 * n then
    match firstBadDigit? 0 digits with
    | some (digit, position) => .error (.badDigit digit position)
    | none => .ok ⟨(joinDigits digits).toArray, by simp [length_joinDigits, h]⟩
  else .error (.length (2 * n) digits.length)

/-- The text without one mark `0x` or `0X` in front. -/
def dropMark : List Char → List Char
  | '0' :: 'x' :: cs => cs
  | '0' :: 'X' :: cs => cs
  | cs => cs

/-- Exactly `n` bytes from a text. -/
def parse (n : Nat) (text : List Char) : Except HexFault (Vector UInt8 n) :=
  decode n (utf8Bytes (dropMark (trim text)))

end Hex

end AbiSig
