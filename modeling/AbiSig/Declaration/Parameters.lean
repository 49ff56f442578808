import AbiSig.Declaration.Normalized

/-!
# The types of the parameters

The argument list of a normalized declaration is reduced to one type per argument by a scan from
left to right. At top level, outside all parentheses and brackets,

* a comma ends the argument;
* a space ends the type, and what follows it up to the comma is dropped (a name, `memory`,
  `calldata`), except that spaces in front of the type are skipped.

Below top level every character is kept, so tuple and array types come through whole, the names of
tuple members included: `((uint256 a,address b) p)` has the type `(uint256a,addressb)`.

The word `indexed` is removed before the scan wherever it stands between two spaces.
-/

namespace AbiSig

open Text

namespace Declaration

/-! ## The word `indexed` -/

/-- The word `indexed` between two spaces is one space. -/
def indexedRule : Rule :=
  { pattern := [' ', 'i', 'n', 'd', 'e', 'x', 'e', 'd', ' '], replacement := [' '] }

/-- The text without the words `indexed` that stand between spaces. -/
def removeIndexed (cs : List Char) : List Char :=
  normalForm [indexedRule] cs

/-! ## The scan -/

/-- The type of the argument that ends here, given in reverse. -/
def endArgument (index : Nat) (reversed : List Char) : Except SignatureError (List Char) :=
  if reversed.isEmpty then .error (.emptyArgument index) else .ok reversed.reverse

/-- The types of the arguments in a text, read with `n` open around it. The text starts at the byte
`offset` and inside the argument `index`, whose type so far is `reversed`; `complete` says that a
space has ended this type. -/
def scanTypes (n : Nesting) (offset index : Nat) (reversed : List Char) (complete : Bool) :
    List Char → Except SignatureError (List (List Char))
  | [] =>
    match n.finish offset with
    | .error imbalance => .error (.unbalanced imbalance)
    | .ok () => do
      let type ← endArgument index reversed
      return [type]
  | c :: cs =>
    match n.step c with
    | .error delimiter => .error (.unbalanced { delimiter, offset })
    | .ok n =>
      let offset := offset + c.utf8Size
      if n.isTopLevel ∧ c = ',' then do
        let type ← endArgument index reversed
        let types ← scanTypes n offset (index + 1) [] false cs
        return type :: types
      else if n.isTopLevel ∧ c = ' ' then
        scanTypes n offset index reversed (complete || !reversed.isEmpty) cs
      else if complete then
        scanTypes n offset index reversed complete cs
      else
        scanTypes n offset index (c :: reversed) complete cs

/-- One type for each argument of the text, in order; there is at least one argument. -/
def typeTokens (cs : List Char) : Except SignatureError (List (List Char)) :=
  scanTypes {} 0 0 [] false cs

end Declaration

namespace Normalized

open Declaration

/-- The type of each argument, in order; a blank argument list has none. -/
def types (n : Normalized) : Except SignatureError (List (List Char)) :=
  let list := trim (removeIndexed n.params.toList)
  if list.isEmpty then .ok [] else typeTokens list

/-- The types as they stand in the signature: between commas, without any blank. -/
def typeList (n : Normalized) : Except SignatureError String := do
  let types ← n.types
  return String.ofList (removeBlanks ([','].intercalate types))

end Normalized

end AbiSig
