import Mathlib.Data.List.TakeWhile

/-!
# Runs of characters

A run of a class of characters is a stretch of a text that belongs to the class and cannot be made
longer. `mapRuns` writes every run of a text anew and keeps all other characters. Its equations are
those of a text that begins with another character (`mapRuns_other`) and of one that begins with a run
(`mapRuns_run`), and no other function has them (`eq_mapRuns`).
-/

namespace AbiSig.Text

variable {p : Char → Bool} {write : Option Char → List Char → Option Char → List Char}
  {before : Option Char} {c : Char} {cs run rest : List Char}

/-- The text with every run of the class `p` as `write` has it; `write` is given the run between the
character in front of it and the character behind it. In front of the whole text stands `before`. -/
def mapRuns (p : Char → Bool) (write : Option Char → List Char → Option Char → List Char)
    (before : Option Char) : List Char → List Char
  | [] => []
  | c :: cs =>
    if p c then
      write before (c :: cs.takeWhile p) (cs.dropWhile p).head? ++
        mapRuns p write (c :: cs.takeWhile p).getLast? (cs.dropWhile p)
    else c :: mapRuns p write (some c) cs
termination_by cs => cs.length
decreasing_by
  · have hlength := (List.dropWhile_sublist p (l := cs)).length_le
    rw [List.length_cons]
    omega
  · simp

@[simp]
theorem mapRuns_nil : mapRuns p write before [] = [] := by
  rw [mapRuns]

theorem mapRuns_other (hc : p c = false) :
    mapRuns p write before (c :: cs) = c :: mapRuns p write (some c) cs := by
  rw [mapRuns, if_neg (by simp [hc])]

/-- A run ends where the text does, or in front of another character. -/
theorem mapRuns_run (hne : run ≠ []) (hrun : ∀ c ∈ run, p c = true)
    (hrest : ∀ c ∈ rest.head?, p c = false) :
    mapRuns p write before (run ++ rest) =
      write before run rest.head? ++ mapRuns p write run.getLast? rest := by
  have htake : rest.takeWhile p = [] := by
    cases rest with
    | nil => rfl
    | cons d rest => exact List.takeWhile_cons_of_neg (by simp [hrest d rfl])
  have hdrop : rest.dropWhile p = rest := by
    cases rest with
    | nil => rfl
    | cons d rest => exact List.dropWhile_cons_of_neg (by simp [hrest d rfl])
  obtain ⟨c, run, rfl⟩ := List.exists_cons_of_ne_nil hne
  rw [List.forall_mem_cons] at hrun
  rw [List.cons_append, mapRuns, if_pos hrun.1, List.takeWhile_append_of_pos hrun.2,
    List.dropWhile_append_of_pos hrun.2, htake, hdrop, List.append_nil]

/-- The equations determine the function. -/
theorem eq_mapRuns {F : Option Char → List Char → List Char} (hnil : ∀ before, F before [] = [])
    (hother : ∀ before c cs, p c = false → F before (c :: cs) = c :: F (some c) cs)
    (hrun : ∀ before run rest, run ≠ [] → (∀ c ∈ run, p c = true) →
      (∀ c ∈ rest.head?, p c = false) →
      F before (run ++ rest) = write before run rest.head? ++ F run.getLast? rest)
    (before : Option Char) (cs : List Char) : F before cs = mapRuns p write before cs := by
  induction hn : cs.length using Nat.strongRecOn generalizing before cs with
  | ind n ih =>
    subst hn
    cases cs with
    | nil => rw [hnil, mapRuns_nil]
    | cons c cs =>
      cases hc : p c with
      | false => rw [hother before c cs hc, mapRuns_other hc, ih cs.length (by simp) (some c) cs rfl]
      | true =>
        -- the text begins with a run, and what follows it is shorter
        have hmem : ∀ d ∈ c :: cs.takeWhile p, p d = true := by
          rw [List.forall_mem_cons]
          exact ⟨hc, fun d hd => List.mem_takeWhile_imp hd⟩
        have hhead : ∀ d ∈ (cs.dropWhile p).head?, p d = false := by
          intro d hd
          have hnot := List.head?_dropWhile_not p cs
          rw [Option.mem_def.1 hd] at hnot
          simpa using hnot
        have hsplit : c :: cs = (c :: cs.takeWhile p) ++ cs.dropWhile p := by
          rw [List.cons_append, List.takeWhile_append_dropWhile]
        have hlength : (cs.dropWhile p).length < (c :: cs).length :=
          Nat.lt_succ_of_le (List.dropWhile_sublist p).length_le
        have hne : c :: cs.takeWhile p ≠ [] := List.cons_ne_nil _ _
        rw [hsplit, hrun before _ _ hne hmem hhead, mapRuns_run hne hmem hhead,
          ih (cs.dropWhile p).length hlength _ _ rfl]

end AbiSig.Text
