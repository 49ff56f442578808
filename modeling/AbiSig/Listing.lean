import AbiSig.Text.Blank
import AbiSig.Text.Lead
import AbiSig.Text.Lines

/-!
# Listings

A listing holds one declaration per line. Blank lines and the comment lines that begin with `#` or
`//` are skipped; `declarations` gives the rest, trimmed.
-/

namespace AbiSig.Listing

open Text

/-- Whether a trimmed line is a comment. -/
def isComment (line : List Char) : Bool :=
  (after? ['#'] line).isSome || (after? ['/', '/'] line).isSome

/-- Whether a trimmed line holds a declaration. -/
def isEntry (line : List Char) : Bool :=
  !line.isEmpty && !isComment line

/-- The declarations of a listing, in order. -/
def declarations (text : String) : List String :=
  (((lines text.toList).map trim).filter isEntry).map String.ofList

end AbiSig.Listing
