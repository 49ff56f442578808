/-!
# Columns of fixed width

A text is set into a column: cut to a greatest length first, if there is one, and then filled up
with spaces to the width. A text that is longer than the width stands as it is.
-/

namespace AbiSig.Text

/-- On which side of its column a text stands. -/
inductive Align where
  | left
  | center
  | right
deriving Repr, DecidableEq

/-- A column: the side, the least number of characters, and the greatest number of them that the
text may keep. -/
structure Column where
  align : Align := .left
  width : Nat
  limit : Option Nat := none
deriving Repr

namespace Column

/-- The spaces before and after a text that lacks `gap` characters; a centred text has the odd
space behind it. -/
def margins (align : Align) (gap : Nat) : Nat × Nat :=
  match align with
  | .left => (0, gap)
  | .center => (gap / 2, gap - gap / 2)
  | .right => (gap, 0)

/-- The text cut to the limit and filled up to the width. -/
def set (col : Column) (text : List Char) : List Char :=
  let kept := match col.limit with
    | some limit => text.take limit
    | none => text
  let (before, behind) := margins col.align (col.width - kept.length)
  List.replicate before ' ' ++ kept ++ List.replicate behind ' '

end Column

end AbiSig.Text
