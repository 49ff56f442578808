import AbiSig.Declaration.ArgumentList
import AbiSig.Declaration.Spacing
import AbiSig.Text.Lead

/-!
# Normalized declarations

A declaration as it stands in source code, on a web page or on a command line is reduced to a name
and the text of its argument list:

    `  function burnFrom(address account, uint256 amount) public virtual {`
    `burnFrom(address account, uint256 amount)`

`normalize` keeps the text through the argument list, tidies its spacing, drops the keywords
`function` and `event` in front, and checks that an identifier remains before the parenthesis.
-/

namespace AbiSig

open Text

namespace Declaration

/-! ## Names -/

/-- Whether `c` can begin an identifier. -/
def isIdentifierStart (c : Char) : Bool :=
  c.isAlpha || c == '_' || c == '$'

/-- Whether `c` can follow in an identifier. -/
def isIdentifierPart (c : Char) : Bool :=
  c.isAlphanum || c == '_' || c == '$'

/-- Whether the text is an identifier: an ASCII letter, `_` or `$`, and then any number of these
and of ASCII digits. -/
def isIdentifier : List Char → Bool
  | [] => false
  | c :: cs => isIdentifierStart c && cs.all isIdentifierPart

/-- The keywords that may stand before a name, each with the space that ends it. -/
def keywords : List (List Char) :=
  ["function ".toList, "event ".toList]

/-- The text without each keyword at most once, in the order of the list. -/
def dropKeywords (cs : List Char) : List Char :=
  keywords.foldl (fun text keyword => dropLead keyword text) cs

end Declaration

/-- A declaration reduced to a name and the text between its outer parentheses. -/
structure Normalized where
  name : String
  params : String
deriving Repr, DecidableEq

namespace Normalized

open Declaration

/-- The declaration written out. -/
def text (n : Normalized) : String :=
  n.name ++ "(" ++ n.params ++ ")"

/-- Splits a tidy text that ends with `)` at its first `(`; the fault says what the name lacks. -/
def ofTidy (cs : List Char) : Except FormatFault Normalized :=
  match cs.dropWhile (· != '(') with
  | [] => .error .noOpen
  | _ :: inside =>
    let name := trimEnd (cs.takeWhile (· != '('))
    if name.isEmpty then .error .noName
    else if isIdentifier name then .ok ⟨String.ofList name, String.ofList inside.dropLast⟩
    else .error (.badName (String.ofList name))

end Normalized

open Declaration in
/-- The declaration in normal form. -/
def normalize (raw : String) : Except SignatureError Normalized := do
  let kept ← throughArguments raw
  match Normalized.ofTidy (trimStart (dropKeywords (tidy (trimStart kept)))) with
  | .ok n => .ok n
  | .error fault => .error (.invalidFormat raw fault)

end AbiSig
