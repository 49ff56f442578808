import AbiSig.Hex
import AbiSig.Nesting

/-!
# What can be wrong with a declaration or a hexadecimal text

`SignatureError` names the cause, `SignatureError.message` words it. Every cause but `invalidHex`
lies in the text of a declaration.
-/

namespace AbiSig

/-- Why a text does not have the form of a name with an argument list. -/
inductive FormatFault where
  /-- No closing parenthesis. -/
  | noClose
  /-- No opening parenthesis before the closing one. -/
  | noOpen
  /-- Nothing before the opening parenthesis. -/
  | noName
  /-- What stands before the opening parenthesis is not an identifier. -/
  | badName (name : String)
deriving Repr, DecidableEq

/-- The wording of the fault. -/
def FormatFault.reason : FormatFault → String
  | noClose => "does not end with ')'"
  | noOpen => "missing '('"
  | noName => "missing identifier"
  | badName name => s!"'{name}' is not an identifier"

/-- Why there is no signature, selector or digest. -/
inductive SignatureError where
  /-- The declaration as a whole has the wrong form. -/
  | invalidFormat (input : String) (fault : FormatFault)
  /-- A delimiter lacks its partner. The offset counts from the start of the argument list as its
  scan finds it, trimmed and without the word `indexed`, or from the start of the input for a
  delimiter that follows the argument list. -/
  | unbalanced (imbalance : Imbalance)
  /-- An argument has no type; the first argument has index zero. -/
  | emptyArgument (index : Nat)
  /-- The text is not the hexadecimal form asked for. -/
  | invalidHex (input : String) (fault : HexFault)
deriving Repr, DecidableEq

namespace SignatureError

/-- Whether the cause lies in the text of a declaration. -/
def isFormatError : SignatureError → Bool
  | invalidHex .. => false
  | _ => true

/-- The wording of the error. -/
def message : SignatureError → String
  | invalidFormat input fault => s!"Invalid interface format '{input}': {fault.reason}"
  | unbalanced imbalance =>
    s!"Unbalanced '{imbalance.delimiter.toChar}' at offset {imbalance.offset}"
  | emptyArgument index => s!"Empty argument at position {index}"
  | invalidHex input fault => s!"Invalid hex '{input}': {fault.reason}"

end SignatureError

end AbiSig
