import AbiSig.Text.Lead

/-!
# Replacement by shortening rules

A `Rule` replaces one text by a shorter one. All statements are over `List Char`.

1. `Rule.replaceAll` replaces the occurrences of the pattern from left to right, each search starting
   behind the last occurrence, so occurrences never overlap.
2. `pass` applies a list of rules, one after the other.
3. `normalForm` repeats the pass until it changes nothing. It ends because a pass that changes the
   text shortens it (`length_pass_lt`).

Main statement: `pass_normalForm`, the normal form is a fixed point of the pass.
-/

namespace AbiSig.Text

/-! ## One rule -/

/-- A replacement that makes a text shorter. -/
structure Rule where
  pattern : List Char
  replacement : List Char
  shorter : replacement.length < pattern.length := by decide
deriving Repr

/-- The text with every occurrence of the pattern replaced, found from left to right without
overlap. -/
def Rule.replaceAll (r : Rule) : List Char → List Char
  | [] => []
  | c :: cs =>
    match _h : after? r.pattern (c :: cs) with
    | some rest => r.replacement ++ r.replaceAll rest
    | none => c :: r.replaceAll cs
termination_by cs => cs.length
decreasing_by
  · have hlen := congrArg List.length (after?_eq_some_iff.1 _h)
    have hpos := r.shorter
    simp only [List.length_append] at hlen
    omega
  · simp

/-- A rule leaves the text alone or shortens it. -/
theorem Rule.replaceAll_eq_or_length_lt (r : Rule) (cs : List Char) :
    r.replaceAll cs = cs ∨ (r.replaceAll cs).length < cs.length := by
  fun_induction Rule.replaceAll r cs with
  | case1 => exact .inl rfl
  | case2 c cs rest h ih =>
    -- an occurrence in front: the replacement is shorter than the pattern
    have hlen := congrArg List.length (after?_eq_some_iff.1 h)
    have hpos := r.shorter
    simp only [List.length_append] at hlen
    right
    rcases ih with ih | ih
    · rw [List.length_append, ih]; omega
    · rw [List.length_append]; omega
  | case3 c cs h ih =>
    rcases ih with ih | ih
    · exact .inl (by rw [ih])
    · exact .inr (by simpa using ih)

/-! ## Several rules -/

/-- The text after applying each rule once, in the order of the list. -/
def pass (rules : List Rule) (cs : List Char) : List Char :=
  rules.foldl (fun text r => r.replaceAll text) cs

@[simp]
theorem pass_cons (r : Rule) (rules : List Rule) (cs : List Char) :
    pass (r :: rules) cs = pass rules (r.replaceAll cs) := rfl

/-- A pass leaves the text alone or shortens it. -/
theorem pass_eq_or_length_lt (rules : List Rule) (cs : List Char) :
    pass rules cs = cs ∨ (pass rules cs).length < cs.length := by
  induction rules generalizing cs with
  | nil => exact .inl rfl
  | cons r rules ih =>
    rw [pass_cons]
    rcases r.replaceAll_eq_or_length_lt cs with h | h
    · rw [h]; exact ih cs
    · rcases ih (r.replaceAll cs) with h' | h'
      · exact .inr (by rw [h']; exact h)
      · exact .inr (by omega)

/-- A pass that changes the text shortens it. -/
theorem length_pass_lt {rules : List Rule} {cs : List Char} (h : pass rules cs ≠ cs) :
    (pass rules cs).length < cs.length :=
  (pass_eq_or_length_lt rules cs).resolve_left h

/-- The text after passes of the rules until none of them applies. -/
def normalForm (rules : List Rule) (cs : List Char) : List Char :=
  if _h : pass rules cs = cs then cs else normalForm rules (pass rules cs)
termination_by cs.length
decreasing_by exact length_pass_lt _h

/-- The normal form is a fixed point of the pass. -/
theorem pass_normalForm (rules : List Rule) (cs : List Char) :
    pass rules (normalForm rules cs) = normalForm rules cs := by
  fun_induction normalForm rules cs with
  | case1 cs h => exact h
  | case2 cs h ih => exact ih

end AbiSig.Text
