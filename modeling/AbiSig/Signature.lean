import AbiSig.Digest
import AbiSig.Text.Blank
import AbiSig.Text.Column
import AbiSig.Text.Uppercase

/-!
# Canonical signatures

A `Signature` is the text that is hashed: a name and a list of types in parentheses, without any
blank. Whether it belongs to a method or to an event is read off the case of its first character,
as the naming conventions for contracts have it.
-/

namespace AbiSig

open Text

/-! ## Kinds -/

/-- Methods are called by selector, events are logged under their digest. -/
inductive Kind where
  | method
  | event
deriving Repr, DecidableEq

/-- The word for the kind. -/
def Kind.word : Kind → String
  | method => "method"
  | event => "event"

/-- The word for the kind, set into a column. -/
def Kind.inColumn (kind : Kind) (col : Column) : String :=
  String.ofList (col.set kind.word.toList)

/-- A name that begins with an uppercase character is that of an event, any other that of a
method. -/
def classify (name : String) : Kind :=
  match name.toList with
  | [] => .method
  | c :: _ => if isUppercase c then .event else .method

/-! ## Signatures -/

/-- The text of a canonical signature. -/
structure Signature where
  text : String
deriving Repr, DecidableEq

namespace Signature

/-- `name(types)` without any blank. -/
def assemble (name types : String) : Signature :=
  ⟨String.ofList (removeBlanks (name.toList ++ '(' :: types.toList ++ [')']))⟩

/-- What stands before the first parenthesis. -/
def name (s : Signature) : String :=
  String.ofList (s.text.toList.takeWhile (· != '('))

/-- What stands between the first parenthesis and the last character. -/
def args (s : Signature) : String :=
  String.ofList ((s.text.toList.dropWhile (· != '(')).drop 1).dropLast

/-- The kind that the name shows. -/
def kind (s : Signature) : Kind :=
  classify s.name

/-- The Keccak-256 digest of the text. -/
def digest (s : Signature) : Digest :=
  keccak256 (utf8Bytes s.text.toList)

/-- The order of signatures: that of their texts by code point, which is also the order of their
bytes. -/
def le (a b : Signature) : Bool :=
  a.text ≤ b.text

/-- A signature holds no blank. -/
theorem not_isBlank_of_mem_assemble {name types : String} {c : Char}
    (h : c ∈ (assemble name types).text.toList) : isBlank c = false := by
  rw [assemble, String.toList_ofList] at h
  exact not_isBlank_of_mem_removeBlanks h

end Signature

end AbiSig
