/-!
# Lines of a text

A line ends at a line feed, and a carriage return right before the line feed belongs to the line
end. What follows the last line feed is a line only if it is not empty, and keeps its carriage
returns.
-/

namespace AbiSig.Text

/-- The text up to the first line feed, and what follows it if there is one. -/
def splitLine : List Char → List Char × Option (List Char)
  | [] => ([], none)
  | c :: cs =>
    if c = '\n' then ([], some cs)
    else
      let (line, rest?) := splitLine cs
      (c :: line, rest?)

/-- The line without a carriage return at its end. -/
def dropReturn (line : List Char) : List Char :=
  if line.getLast? = some '\r' then line.dropLast else line

/-- What follows the first line feed is shorter than the text. -/
theorem length_lt_of_splitLine {cs line rest : List Char}
    (h : splitLine cs = (line, some rest)) : rest.length < cs.length := by
  induction cs generalizing line with
  | nil => simp [splitLine] at h
  | cons c cs ih =>
    simp only [splitLine] at h
    split at h
    · simp only [Prod.mk.injEq, Option.some.injEq] at h
      simp [h.2]
    · rcases hs : splitLine cs with ⟨line', rest?⟩
      rw [hs] at h
      simp only [Prod.mk.injEq] at h
      have := @ih line' (by rw [hs, h.2])
      simp only [List.length_cons]
      omega

/-- The lines of the text, without their line ends. -/
def lines (cs : List Char) : List (List Char) :=
  match _h : splitLine cs with
  | (line, some rest) => dropReturn line :: lines rest
  | ([], none) => []
  | (line, none) => [line]
termination_by cs.length
decreasing_by exact length_lt_of_splitLine _h

end AbiSig.Text
