/-!
# Chunks of a list

`chunks n xs` cuts `xs` into consecutive pieces of `n` elements, of which only the last may be shorter
(`length_of_mem_dropLast_chunks`). The pieces make up the list (`flatten_chunks`).
-/

namespace AbiSig

/-- The consecutive pieces of `n` elements, the last one possibly shorter; `n = 0` counts as one. -/
def chunks {α : Type} (n : Nat) : List α → List (List α)
  | [] => []
  | x :: xs => (x :: xs.take (n - 1)) :: chunks n (xs.drop (n - 1))
termination_by xs => xs.length
decreasing_by simp only [List.length_drop, List.length_cons]; omega

theorem ne_nil_of_chunks_ne_nil {α : Type} (n : Nat) {xs : List α} (h : chunks n xs ≠ []) : xs ≠ [] := by
  rintro rfl
  simp [chunks] at h

/-- Every piece but the last has full length. -/
theorem length_of_mem_dropLast_chunks {α : Type} {n : Nat} (hn : 0 < n) {xs ys : List α}
    (h : ys ∈ (chunks n xs).dropLast) : ys.length = n := by
  fun_induction chunks n xs with
  | case1 => simp at h
  | case2 x xs ih =>
    by_cases hlast : chunks n (xs.drop (n - 1)) = []
    · simp [hlast] at h
    · rw [List.dropLast_cons_of_ne_nil hlast, List.mem_cons] at h
      rcases h with rfl | hrest
      · have hmore := mt List.drop_eq_nil_iff.2 (ne_nil_of_chunks_ne_nil n hlast)
        rw [List.length_cons, List.length_take]
        omega
      · exact ih hrest

/-- The pieces make up the list. -/
theorem flatten_chunks {α : Type} (n : Nat) (xs : List α) : (chunks n xs).flatten = xs := by
  fun_induction chunks n xs with
  | case1 => rfl
  | case2 x xs ih => simp [ih]

end AbiSig
