import AbiSig.Listing
import AbiSig.Proofs.Text.Lines
import AbiSig.Proofs.Text.Trimming

/-!
# Listings in a row

Two listings become one with a line feed between them. The line feed ends the last line of the first
listing, if that line has no end of its own; otherwise it makes a blank line. Either way the
declarations are those of the first listing, followed by those of the second one
(`declarations_append`).

A carriage return before the line feed belongs to the line end, so the first listing may lose one. It
is a blank at the end of a line, and lines are trimmed (`trim_dropReturn`).

The declarations of a listing (`IsDeclaration`) can be listed again, with a line feed between any two:
this listing has the same declarations (`declarations_intercalate`).
-/

namespace AbiSig.Listing

open Text

variable {line : List Char} {e : String}

/-! ## Entries -/

/-- The lines that hold declarations, trimmed. -/
def entries (lines : List (List Char)) : List (List Char) :=
  (lines.map trim).filter isEntry

theorem entries_append (ls ms : List (List Char)) : entries (ls ++ ms) = entries ls ++ entries ms := by
  unfold entries
  rw [List.map_append, List.filter_append]

/-- A carriage return at the end of a line is trimmed. -/
theorem trim_dropReturn (line : List Char) : trim (dropReturn line) = trim line := by
  unfold dropReturn
  split
  · next hlast =>
    obtain ⟨cs, rfl⟩ := List.getLast?_eq_some_iff.1 hlast
    rw [List.dropLast_concat, trim_concat_blank (by decide)]
  · rfl

theorem entries_dropReturn (line : List Char) (ls : List (List Char)) :
    entries (dropReturn line :: ls) = entries [line] ++ entries ls := by
  rw [← entries_append]
  unfold entries
  rw [List.map_cons, trim_dropReturn]
  rfl

/-- A line feed between two texts keeps their entries apart. -/
theorem entries_lines_append (as bs : List Char) :
    entries (lines (as ++ '\n' :: bs)) = entries (lines as) ++ entries (lines bs) := by
  fun_induction lines as with
  | case1 as line rest h ih =>
    -- the first line ends before the line feed in between
    obtain ⟨hline, rfl⟩ := of_splitLine_eq_some h
    rw [List.append_assoc, List.cons_append, lines_append_feed hline, entries_dropReturn, ih,
      entries_dropReturn, List.append_assoc]
  | case2 as h =>
    -- the line feed makes a blank line
    obtain ⟨-, rfl⟩ := of_splitLine_eq_none h
    rw [lines_append_feed List.not_mem_nil, entries_dropReturn]
    rfl
  | case3 as line hne h =>
    -- the line feed ends the last line
    obtain ⟨hline, rfl⟩ := of_splitLine_eq_none h
    rw [lines_append_feed hline, entries_dropReturn]

/-- The declarations of two listings with a line feed between them. -/
theorem declarations_append (a b : String) :
    declarations (a ++ "\n" ++ b) = declarations a ++ declarations b := by
  have htext : (a ++ "\n" ++ b).toList = a.toList ++ '\n' :: b.toList := by simp
  show (entries (lines (a ++ "\n" ++ b).toList)).map String.ofList =
    (entries (lines a.toList)).map String.ofList ++ (entries (lines b.toList)).map String.ofList
  rw [htext, entries_lines_append, List.map_append]

/-! ## The declarations of a listing as a listing -/

/-- What every declaration of a listing is like: it stands on one line, is trimmed, and is neither
empty nor a comment. -/
structure IsDeclaration (e : String) : Prop where
  one_line : '\n' ∉ e.toList
  trimmed : trim e.toList = e.toList
  entry : isEntry e.toList = true

theorem isDeclaration_of_mem {text : String} (h : e ∈ declarations text) : IsDeclaration e := by
  obtain ⟨entry, hentry, rfl⟩ := List.mem_map.1 h
  obtain ⟨hmem, hkept⟩ := List.mem_filter.1 hentry
  obtain ⟨line, hline, rfl⟩ := List.mem_map.1 hmem
  constructor
  case one_line =>
    rw [String.toList_ofList]
    exact fun hfeed => not_mem_of_mem_lines hline (mem_of_mem_trim hfeed)
  case trimmed => rw [String.toList_ofList, trim_trim]
  case entry =>
    rw [String.toList_ofList]
    exact hkept

/-- A declaration alone is a listing of one. -/
theorem IsDeclaration.declarations_eq (h : IsDeclaration e) : declarations e = [e] := by
  have hne : e.toList ≠ [] := by
    intro hnil
    have hentry := h.entry
    rw [hnil] at hentry
    contradiction
  show (entries (lines e.toList)).map String.ofList = [e]
  rw [lines_of_not_mem h.one_line hne, entries, List.map_singleton, h.trimmed,
    List.filter_singleton, h.entry, cond_true, List.map_singleton, String.ofList_toList]

theorem declarations_intercalate (es : List String) (h : ∀ e ∈ es, IsDeclaration e) :
    declarations ("\n".intercalate es) = es := by
  induction es with
  | nil => simp [declarations, lines, splitLine]
  | cons e es ih =>
    rw [List.forall_mem_cons] at h
    cases es with
    | nil => rw [String.intercalate_singleton, h.1.declarations_eq]
    | cons e' es =>
      rw [String.intercalate_cons_cons, declarations_append, h.1.declarations_eq, ih h.2,
        List.singleton_append]

/-- A carriage return before the line feed, and a comment in the last line. -/
example : declarations ("a()\r" ++ "\n" ++ "b()\n# c()") = ["a()", "b()"] := by cbv

end AbiSig.Listing
