/-!
# A character in quotes

How a message shows a single character so that it can be seen: between apostrophes, with the
common control characters, the apostrophe and the backslash escaped, and every other character
below 256 that leaves no mark on the page as its code point in hexadecimal.
-/

namespace AbiSig.Text

/-- The apostrophe, the quote character of the form. -/
def apostrophe : Char := Char.ofNat 0x27

/-- Whether a character below 256 leaves no mark: controls, the no-break space and the soft
hyphen. -/
def isInvisible (c : Char) : Bool :=
  c.toNat < 0x20 || (0x7F ≤ c.toNat && c.toNat ≤ 0xA0) || c.toNat == 0xAD

/-- The character as it stands between the quotes. -/
def escaped (c : Char) : List Char :=
  if c = Char.ofNat 0 then ['\\', '0']
  else if c = '\t' then ['\\', 't']
  else if c = '\n' then ['\\', 'n']
  else if c = '\r' then ['\\', 'r']
  else if c = '\\' then ['\\', '\\']
  else if c = apostrophe then ['\\', apostrophe]
  else if isInvisible c then ['\\', 'u', '\x7b'] ++ Nat.toDigits 16 c.toNat ++ ['\x7d']
  else [c]

/-- The character in quotes. -/
def quoted (c : Char) : List Char :=
  apostrophe :: escaped c ++ [apostrophe]

end AbiSig.Text
