import AbiSig.Text.Utf8

/-!
# Nesting of parentheses and brackets

Parentheses and brackets are counted apart, each with a counter of its own that must not go below
zero; `(]` is wrong because a bracket closes that was never opened, `([)]` is accepted.

* `Nesting.step` reads one character and refuses a closing delimiter that nothing opened.
* `Nesting.scan` reads a text and reports the byte offset of the first refusal.
* `checkBalanced` also refuses a text that leaves a delimiter open, at the end of the text and
  parentheses before brackets.
-/

namespace AbiSig

open Text

/-- The characters that open and close a nesting level. -/
inductive Delimiter where
  | openParen
  | closeParen
  | openBracket
  | closeBracket
deriving Repr, DecidableEq

/-- The character that writes the delimiter. -/
def Delimiter.toChar : Delimiter → Char
  | openParen => '('
  | closeParen => ')'
  | openBracket => '['
  | closeBracket => ']'

/-- A delimiter without its partner, and the byte offset at which this shows. -/
structure Imbalance where
  delimiter : Delimiter
  offset : Nat
deriving Repr, DecidableEq

/-! ## Counters -/

/-- How many parentheses and brackets are open. -/
structure Nesting where
  parens : Nat := 0
  brackets : Nat := 0
deriving Repr, DecidableEq, Inhabited

namespace Nesting

/-- Nothing is open. -/
def isTopLevel (n : Nesting) : Bool :=
  n.parens == 0 && n.brackets == 0

/-- The counters after one character, or the closing delimiter that nothing opened. -/
def step (n : Nesting) (c : Char) : Except Delimiter Nesting :=
  if c = '(' then .ok { n with parens := n.parens + 1 }
  else if c = '[' then .ok { n with brackets := n.brackets + 1 }
  else if c = ')' then
    match n.parens with
    | 0 => .error .closeParen
    | parens + 1 => .ok { n with parens }
  else if c = ']' then
    match n.brackets with
    | 0 => .error .closeBracket
    | brackets + 1 => .ok { n with brackets }
  else .ok n

/-- A delimiter that is still open; parentheses come before brackets. -/
def unclosed? (n : Nesting) : Option Delimiter :=
  if 0 < n.parens then some .openParen
  else if 0 < n.brackets then some .openBracket
  else none

/-- Refuses counters that leave something open at the given byte offset. -/
def finish (n : Nesting) (offset : Nat) : Except Imbalance Unit :=
  match n.unclosed? with
  | some delimiter => .error { delimiter, offset }
  | none => .ok ()

/-- The counters after a text that starts at the given byte offset. -/
def scan (n : Nesting) (offset : Nat) : List Char → Except Imbalance Nesting
  | [] => .ok n
  | c :: cs =>
    match n.step c with
    | .error delimiter => .error { delimiter, offset }
    | .ok n' => n'.scan (offset + c.utf8Size) cs

/-- A character that is no delimiter leaves the counters alone. -/
theorem step_eq_ok_self {c : Char} (h₁ : c ≠ '(') (h₂ : c ≠ '[') (h₃ : c ≠ ')') (h₄ : c ≠ ']')
    (n : Nesting) : n.step c = .ok n := by
  simp [step, h₁, h₂, h₃, h₄]

end Nesting

/-! ## Whole texts -/

/-- Refuses a text in which a delimiter lacks its partner; the text starts at the given byte
offset. -/
def checkBalanced (offset : Nat) (cs : List Char) : Except Imbalance Unit := do
  let n ← Nesting.scan {} offset cs
  n.finish (offset + utf8Size cs)

end AbiSig
