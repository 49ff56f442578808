import AbiSig.Text.Blank
import AbiSig.Text.Replacement

/-!
# The spacing of a declaration

A declaration is brought to one spacing in two steps, each the normal form of a few shortening
rules.

1. `collapse` turns every run of layout characters into one space.
2. `tighten` deletes spaces inside parentheses and brackets, before a comma and before an opening
   bracket, so that `f( uint256 [ ] xs , bool )` becomes `f(uint256[] xs, bool)`.

Spaces after a comma and before an opening parenthesis stay.
-/

namespace AbiSig.Declaration

open Text

/-- Two spaces are one. -/
def doubleSpace : Rule := { pattern := [' ', ' '], replacement := [' '] }

/-- The text with every layout character written as a space. -/
def spaceLayout (cs : List Char) : List Char :=
  cs.map fun c => if isLayout c then ' ' else c

/-- The text with one space for every run of layout characters. -/
def collapse (cs : List Char) : List Char :=
  normalForm [doubleSpace] (spaceLayout cs)

/-- Where a space next to a delimiter is dropped. -/
def tightenRules : List Rule :=
  [{ pattern := ['(', ' '], replacement := ['('] },
   { pattern := [' ', ')'], replacement := [')'] },
   { pattern := [' ', ','], replacement := [','] },
   { pattern := [')', ' ', ','], replacement := [')', ','] },
   { pattern := [')', ' ', ')'], replacement := [')', ')'] },
   { pattern := ['[', ' '], replacement := ['['] },
   { pattern := [' ', ']'], replacement := [']'] },
   { pattern := [' ', '['], replacement := ['['] }]

/-- The text without the spaces that delimiters make superfluous. -/
def tighten (cs : List Char) : List Char :=
  normalForm tightenRules cs

/-- The text in the one spacing that declarations are kept in. -/
def tidy (cs : List Char) : List Char :=
  tighten (collapse cs)

end AbiSig.Declaration
