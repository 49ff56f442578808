import AbiSig.Proofs.Text.Trimming
import Mathlib.Data.List.Basic

/-!
# How a text falls into fields

A run of spaces separates two fields. `SplitsAtSpaces` says into which fields a text falls: they hold no
space, and between two of them stands a whole run, which is followed by something else. A text falls
into fields in one way only (`SplitsAtSpaces.unique`), so what is written in fields can be read back.
-/

namespace AbiSig.Text

/-- The text falls into the fields, with a run of spaces between any two. A field is empty only where
the text begins or ends with a space. -/
inductive SplitsAtSpaces : List Char → List (List Char) → Prop where
  | last {field : List Char} (hfield : ' ' ∉ field) : SplitsAtSpaces field [field]
  | run {field rest : List Char} {fields : List (List Char)} (n : Nat) (hfield : ' ' ∉ field)
      (hrun : rest.head? ≠ some ' ') (hrest : SplitsAtSpaces rest fields) :
      SplitsAtSpaces (field ++ (List.replicate (n + 1) ' ' ++ rest)) (field :: fields)

variable {cs as bs field field' : List Char} {fields fields' : List (List Char)} {n m : Nat}

/-- A run of spaces is as long as it can be. -/
theorem replicate_append_inj (has : as.head? ≠ some ' ') (hbs : bs.head? ≠ some ' ')
    (h : List.replicate n ' ' ++ as = List.replicate m ' ' ++ bs) : as = bs := by
  have hdrop {k : Nat} {cs : List Char} (hcs : cs.head? ≠ some ' ') :
      (List.replicate k ' ' ++ cs).dropWhile (· == ' ') = cs := by
    rw [List.dropWhile_append_of_pos (by simp)]
    cases cs with
    | nil => rfl
    | cons c cs => exact List.dropWhile_cons_of_neg (by simpa using hcs)
  rw [← hdrop has, h, hdrop hbs]

/-- The first field ends where the first run begins, and the next one begins where this run ends. -/
theorem field_append_inj (hfield : ' ' ∉ field) (hfield' : ' ' ∉ field') (has : as.head? ≠ some ' ')
    (hbs : bs.head? ≠ some ' ')
    (h : field ++ (List.replicate (n + 1) ' ' ++ as) = field' ++ (List.replicate (m + 1) ' ' ++ bs)) :
    field = field' ∧ as = bs := by
  rw [List.replicate_succ, List.replicate_succ, List.cons_append, List.cons_append] at h
  obtain ⟨hfields, hrest⟩ := append_cons_inj hfield hfield' h
  exact ⟨hfields, replicate_append_inj has hbs hrest⟩

/-- A text falls into fields in one way only. -/
theorem SplitsAtSpaces.unique (h : SplitsAtSpaces cs fields) (h' : SplitsAtSpaces cs fields') :
    fields = fields' := by
  induction h generalizing fields' with
  | @last field hfield =>
    cases h' with
    | last => rfl
    | run n => exact absurd hfield (by simp)
  | @run field rest fields n hfield hrun _ ih =>
    generalize htext : field ++ (List.replicate (n + 1) ' ' ++ rest) = text at h'
    cases h' with
    | last hnot =>
      rw [← htext] at hnot
      exact absurd hnot (by simp)
    | run m hfield' hrun' hrest' =>
      obtain ⟨rfl, rfl⟩ := field_append_inj hfield hfield' hrun hrun' htext
      rw [ih hrest']

theorem SplitsAtSpaces.iff_eq (h : SplitsAtSpaces cs fields) :
    SplitsAtSpaces cs fields' ↔ fields' = fields := by
  constructor
  · exact fun h' => h'.unique h
  · rintro rfl
    exact h

end AbiSig.Text
