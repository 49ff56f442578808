import AbiSig.Error
import AbiSig.Text.Utf8

/-!
# Where the argument list of a declaration ends

What follows the argument list (modifiers, a `returns` clause, the opening of a body) is no part of
a signature. `throughArguments` drops it:

* if the first `(` has its `)`, the text is kept up to that `)`, and what is dropped must be
  balanced by itself;
* if it has none, the text is kept up to the last `)` and left for later stages to refuse;
* a text without any `)` is refused at once.
-/

namespace AbiSig.Declaration

open Text

/-- The text up to the `)` that closes `depth + 1` open parentheses, and what follows it. -/
def splitAtClose (depth : Nat) : List Char → Option (List Char × List Char)
  | [] => none
  | c :: cs =>
    if c = '(' then (splitAtClose (depth + 1) cs).map fun (kept, rest) => (c :: kept, rest)
    else if c = ')' then
      match depth with
      | 0 => some ([c], cs)
      | depth + 1 => (splitAtClose depth cs).map fun (kept, rest) => (c :: kept, rest)
    else (splitAtClose depth cs).map fun (kept, rest) => (c :: kept, rest)

/-- The text up to the `)` that closes the first `(`, and what follows it. -/
def splitArguments (cs : List Char) : Option (List Char × List Char) :=
  match cs.dropWhile (· != '(') with
  | [] => none
  | opening :: inside =>
    (splitAtClose 0 inside).map fun (kept, rest) =>
      (cs.takeWhile (· != '(') ++ opening :: kept, rest)

/-- The text up to its last `)`; empty if it has none. -/
def throughLastClose (cs : List Char) : List Char :=
  (cs.reverse.dropWhile (· != ')')).reverse

/-- The declaration without what follows its argument list. -/
def throughArguments (raw : String) : Except SignatureError (List Char) :=
  match splitArguments raw.toList with
  | some (kept, rest) =>
    match checkBalanced (utf8Size kept) rest with
    | .ok () => .ok kept
    | .error imbalance => .error (.unbalanced imbalance)
  | none =>
    match throughLastClose raw.toList with
    | [] => .error (.invalidFormat raw .noClose)
    | kept => .ok kept

end AbiSig.Declaration
