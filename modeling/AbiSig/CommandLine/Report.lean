import AbiSig.CommandLine.Invocation
import AbiSig.Json
import AbiSig.Registry

/-!
# What a command reports

A `Report` is the exit status with the texts for the two output channels. Each command is a function
from its input to a report:

* `reportSig` shows one declaration, or says why it has no signature;
* `reportBatch` shows each accepted declaration of a listing, and on the second channel the failed
  ones with a summary; its status is 1 if any failed;
* `reportLookup` shows the declarations of a listing that match; its status is 1 if none does.

Interfaces are shown as aligned rows, or as JSON.
-/

namespace AbiSig.CommandLine

open Text

/-! ## Reports -/

/-- The exit status and the texts that a run writes. -/
structure Report where
  status : Nat := 0
  output : String := ""
  errors : String := ""
deriving Repr, DecidableEq

/-- The lines as a text, each with a line feed behind it. -/
def unlines (lines : List String) : String :=
  String.join (lines.map (· ++ "\n"))

/-- A text with every line but the first set in by four spaces. -/
def indented (text : String) : String :=
  String.ofList (text.toList.flatMap fun c => if c = '\n' then "\n    ".toList else [c])

/-- A run that failed, with the cause if there is one. -/
def Report.failure (what : String) (cause : Option String := none) : Report where
  status := 1
  errors :=
    match cause with
    | none => unlines [s!"Error: {what}"]
    | some cause => unlines [s!"Error: {what}", "", "Caused by:", "    " ++ indented cause]

/-! ## Interfaces -/

/-- The record of an interface: its texts and the hexadecimal forms. -/
def recordOf (i : Interface) : Json :=
  .object
    [("normalized", .string i.normalized.text),
     ("canonical_signature", .string i.signature.text),
     ("kind", .string i.kind.word),
     ("hash_hex", .string i.digest.toHex),
     ("selector_hex", .string i.selector.toHex)]

/-- The records of interfaces, in order. -/
def recordsOf (is : List Interface) : Json :=
  .array (is.map recordOf)

/-- The column in which the kind stands. -/
def kindColumn : Column :=
  { align := .left, width := 6 }

/-- The row of an interface: selector, kind and signature. -/
def row (i : Interface) : String :=
  i.selector.toHex ++ "  " ++ i.kind.inColumn kindColumn ++ "  " ++ i.signature.text

/-- The full account of one interface. -/
def account (i : Interface) : List String :=
  let shown :=
    if i.isEvent then [s!"Event signature: {i.digest.toHex}"]
    else [s!"Hash: {i.digest.toHex}", s!"Method signature: {i.selector.toHex}"]
  [s!"Normalized interface: {i.normalized.text}", s!"Used for hashing: {i.signature.text}"] ++ shown

/-! ## Commands -/

/-- The report on one declaration. -/
def reportSig (declaration : String) (json : Bool) : Report :=
  match canonicalize declaration with
  | .error e => .failure "could not canonicalize interface" e.message
  | .ok i => { output := unlines (if json then [(recordOf i).pretty] else account i) }

/-- One line for each failed declaration, and a summary if there are any. -/
def failureLines (declarations : List String) (failed : List (Nat × SignatureError)) :
    List String :=
  if failed.isEmpty then []
  else
    failed.map (fun (position, e) => s!"✗ {declarations.getD position default}: {e.message}") ++
      [s!"{failed.length} of {declarations.length} declarations failed"]

/-- The report on a listing. -/
def reportBatch (listing : String) (json : Bool) : Report :=
  let declarations := Listing.declarations listing
  let outcome := canonicalizeAll declarations
  let accepted := outcome.accepted.map (·.2)
  { status := if outcome.failed.isEmpty then 0 else 1
    output := unlines (if json then [(recordsOf accepted).pretty] else accepted.map row)
    errors := unlines (failureLines declarations outcome.failed) }

/-- The interfaces that a text asks for: a text of 32 bytes asks for a digest, any other for a
selector. -/
def find (r : Registry) (sought : String) : Except SignatureError (List Interface) :=
  match Digest.parse sought with
  | .ok d => .ok (r.withDigest? d).toList
  | .error _ => (Selector.parse sought).map r.withSelector

/-- The report on a search through a listing that was read from `file`. -/
def reportLookup (sought file listing : String) (json : Bool) : Report :=
  let registry := (Registry.load {} listing).registry
  match find registry sought with
  | .error e => .failure s!"expected a 4-byte selector or 32-byte topic: {e.message}"
  | .ok found =>
    { status := if found.isEmpty then 1 else 0
      output := unlines <|
        if json then [(recordsOf found).pretty]
        else if found.isEmpty then [s!"No signature in {file} matches {sought}"]
        else found.map row }

end AbiSig.CommandLine
