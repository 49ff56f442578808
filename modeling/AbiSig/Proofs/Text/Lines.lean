import AbiSig.Text.Lines
import Mathlib.Data.List.Basic

/-!
# How a text falls into lines

`lines` cuts a text at one line feed after the other. `FallsInto` says into which lines a text falls
without cutting it: every line but the last has an end of its own, which is a line feed or a carriage
return with a line feed. `fallsInto_iff` says that these are the same lines.
-/

namespace AbiSig.Text

variable {cs line rest : List Char} {ls : List (List Char)}

/-! ## The first line -/

theorem splitLine_append_feed (h : '\n' ∉ line) (rest : List Char) :
    splitLine (line ++ '\n' :: rest) = (line, some rest) := by
  induction line with
  | nil => simp [splitLine]
  | cons c line ih =>
    rw [List.mem_cons, not_or] at h
    rw [List.cons_append, splitLine, if_neg (Ne.symm h.1), ih h.2]

theorem splitLine_of_not_mem (h : '\n' ∉ cs) : splitLine cs = (cs, none) := by
  induction cs with
  | nil => rfl
  | cons c cs ih =>
    rw [List.mem_cons, not_or] at h
    rw [splitLine, if_neg (Ne.symm h.1), ih h.2]

theorem of_splitLine_eq_some (h : splitLine cs = (line, some rest)) :
    '\n' ∉ line ∧ cs = line ++ '\n' :: rest := by
  by_cases hmem : '\n' ∈ cs
  · obtain ⟨front, back, rfl, hfront⟩ := List.eq_append_cons_of_mem hmem
    rw [splitLine_append_feed hfront] at h
    obtain ⟨rfl, hback⟩ := Prod.mk.inj h
    obtain rfl := Option.some.inj hback
    exact ⟨hfront, rfl⟩
  · rw [splitLine_of_not_mem hmem] at h
    exact absurd (Prod.mk.inj h).2 (by simp)

theorem of_splitLine_eq_none (h : splitLine cs = (line, none)) : '\n' ∉ cs ∧ line = cs := by
  by_cases hmem : '\n' ∈ cs
  · obtain ⟨front, back, rfl, hfront⟩ := List.eq_append_cons_of_mem hmem
    rw [splitLine_append_feed hfront] at h
    exact absurd (Prod.mk.inj h).2 (by simp)
  · rw [splitLine_of_not_mem hmem] at h
    exact ⟨hmem, (Prod.mk.inj h).1.symm⟩

theorem lines_append_feed (h : '\n' ∉ line) (rest : List Char) :
    lines (line ++ '\n' :: rest) = dropReturn line :: lines rest := by
  have hfirst := splitLine_append_feed h rest
  conv_lhs => unfold lines
  split
  · next line' rest' hsplit =>
    obtain ⟨rfl, hrest⟩ := Prod.mk.inj (hfirst.symm.trans hsplit)
    rw [Option.some.inj hrest]
  · next hsplit => exact absurd (Prod.mk.inj (hfirst.symm.trans hsplit)).2 (by simp)
  · next hsplit => exact absurd (Prod.mk.inj (hfirst.symm.trans hsplit)).2 (by simp)

theorem lines_of_not_mem (h : '\n' ∉ cs) (hne : cs ≠ []) : lines cs = [cs] := by
  have hfirst := splitLine_of_not_mem h
  unfold lines
  split
  · next hsplit => exact absurd (Prod.mk.inj (hfirst.symm.trans hsplit)).2 (by simp)
  · next hsplit => exact absurd (Prod.mk.inj (hfirst.symm.trans hsplit)).1 hne
  · next line' _ hsplit => rw [(Prod.mk.inj (hfirst.symm.trans hsplit)).1]

/-! ## All lines -/

/-- The text falls into the lines. A line feed ends a line, and so does a carriage return with a line
feed behind it. What is left behind the last line feed is a line too, unless it is empty. -/
inductive FallsInto : List Char → List (List Char) → Prop where
  | nil : FallsInto [] []
  | last {line : List Char} (hne : line ≠ []) (hline : '\n' ∉ line) : FallsInto line [line]
  | feed {line rest : List Char} {ls : List (List Char)} (hline : '\n' ∉ line)
      (hreturn : line.getLast? ≠ some '\r') (hrest : FallsInto rest ls) :
      FallsInto (line ++ '\n' :: rest) (line :: ls)
  | returnFeed {line rest : List Char} {ls : List (List Char)} (hline : '\n' ∉ line)
      (hrest : FallsInto rest ls) : FallsInto (line ++ '\r' :: '\n' :: rest) (line :: ls)

theorem fallsInto_lines (cs : List Char) : FallsInto cs (lines cs) := by
  fun_induction lines cs with
  | case1 cs line rest h ih =>
    obtain ⟨hline, rfl⟩ := of_splitLine_eq_some h
    unfold dropReturn
    split
    · next hlast =>
      -- the carriage return belongs to the line end
      obtain ⟨line', rfl⟩ := List.getLast?_eq_some_iff.1 hlast
      rw [List.dropLast_concat, List.append_assoc]
      exact .returnFeed (fun hmem => hline (List.mem_append_left _ hmem)) ih
    · next hlast => exact .feed hline hlast ih
  | case2 cs h =>
    obtain ⟨-, rfl⟩ := of_splitLine_eq_none h
    exact .nil
  | case3 cs line hne h =>
    obtain ⟨hnot, rfl⟩ := of_splitLine_eq_none h
    exact .last hne hnot

/-- A text falls into its lines in one way. -/
theorem fallsInto_iff : FallsInto cs ls ↔ ls = lines cs := by
  constructor
  · intro h
    induction h with
    | nil => simp [lines, splitLine]
    | last hne hline => exact (lines_of_not_mem hline hne).symm
    | @feed line rest ls hline hreturn _ ih =>
      rw [lines_append_feed hline, dropReturn, if_neg hreturn, ih]
    | @returnFeed line rest ls hline _ ih =>
      have hnot : '\n' ∉ line ++ ['\r'] := by simp [hline]
      rw [List.append_cons, lines_append_feed hnot, dropReturn, List.getLast?_concat, if_pos rfl,
        List.dropLast_concat, ih]
  · rintro rfl
    exact fallsInto_lines cs

/-- No line holds a line feed. -/
theorem not_mem_of_mem_lines (h : line ∈ lines cs) : '\n' ∉ line := by
  have hlines := fallsInto_lines cs
  generalize lines cs = ls at h hlines
  induction hlines with
  | nil => contradiction
  | last _ hline =>
    rw [List.mem_singleton] at h
    exact h ▸ hline
  | feed hline _ _ ih =>
    rcases List.mem_cons.1 h with rfl | h
    · exact hline
    · exact ih h
  | returnFeed hline _ ih =>
    rcases List.mem_cons.1 h with rfl | h
    · exact hline
    · exact ih h

end AbiSig.Text
