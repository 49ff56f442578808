import AbiSig.Batch
import Mathlib.Algebra.Group.Nat.Defs

/-!
# What an outcome says of a list

An outcome numbers the declarations of a list and sorts them into accepted and failed ones.

1. **The whole list**: `Sorts` says which outcome belongs to a list, and `sorts_canonicalizeAll` that
   `canonicalizeAll` gives it. Every position of the list stands in it once, on one side. The failed
   side, without its positions, is `failures` (`map_failed_canonicalizeAll`).
2. **Two parts**: the outcome of a list is that of its front, followed by that of its back with the
   positions moved by the length of the front (`canonicalizeAll_append`).
3. **Pieces**: every piece but the last has full length, so the piece with number `k` starts at `k`
   times this length (`foldl_pieces`). Whatever the length, the outcomes of the pieces make up that of
   the list, and no piece starts outside the list (`canonicalizeInChunks_eq_canonicalizeAll`).
-/

namespace AbiSig

namespace Outcome

/-! ## The outcome of a list -/

/-- The outcome holds each declaration of the list under its position, in order. -/
structure Sorts (inputs : List String) (o : Outcome) : Prop where
  /-- Under a position stands the interface that the declaration at this position declares. -/
  accepted : ∀ k i, (k, i) ∈ o.accepted ↔ ∃ raw, inputs[k]? = some raw ∧ canonicalize raw = .ok i
  /-- Under a position stands the error with which the declaration at this position fails. -/
  failed : ∀ k e, (k, e) ∈ o.failed ↔ ∃ raw, inputs[k]? = some raw ∧ canonicalize raw = .error e
  accepted_ascending : (o.accepted.map (·.1)).Pairwise (· < ·)
  failed_ascending : (o.failed.map (·.1)).Pairwise (· < ·)
  /-- Every position of the list stands once, on one side. -/
  once : (o.accepted.map (·.1) ++ o.failed.map (·.1)).Perm (List.range inputs.length)

variable {p k : Nat} {i : Interface} {e : SignatureError} {rs : List (Except SignatureError Interface)}

/-- An element of a list that is numbered from `p` comes first, or stands in the tail, which is
numbered from `p + 1`. -/
theorem exists_getElem?_cons_iff {α : Type} {x a : α} {as : List α} :
    (∃ j, k = p + j ∧ (a :: as)[j]? = some x) ↔
      (k = p ∧ a = x) ∨ ∃ j, k = p + 1 + j ∧ as[j]? = some x := by
  constructor
  · rintro ⟨j, rfl, hj⟩
    cases j with
    | zero =>
      left
      exact ⟨rfl, by simpa using hj⟩
    | succ j =>
      right
      exact ⟨j, by omega, hj⟩
  · rintro (⟨rfl, rfl⟩ | ⟨j, rfl, hj⟩)
    · exact ⟨0, rfl, rfl⟩
    · exact ⟨j + 1, by omega, hj⟩

theorem mem_accepted_ofResults :
    (k, i) ∈ (ofResults p rs).accepted ↔ ∃ j, k = p + j ∧ rs[j]? = some (.ok i) := by
  fun_induction ofResults p rs with
  | case1 => simp
  | case2 p i' rs o ih =>
    rw [exists_getElem?_cons_iff, ← ih, List.mem_cons]
    simp [o, eq_comm]
  | case3 p e' rs o ih =>
    rw [exists_getElem?_cons_iff, ← ih]
    simp [o]

theorem mem_failed_ofResults :
    (k, e) ∈ (ofResults p rs).failed ↔ ∃ j, k = p + j ∧ rs[j]? = some (.error e) := by
  fun_induction ofResults p rs with
  | case1 => simp
  | case2 p i' rs o ih =>
    rw [exists_getElem?_cons_iff, ← ih]
    simp [o]
  | case3 p e' rs o ih =>
    rw [exists_getElem?_cons_iff, ← ih, List.mem_cons]
    simp [o, eq_comm]

/-- The positions count up from the first one. -/
theorem perm_positions_ofResults (p : Nat) (rs : List (Except SignatureError Interface)) :
    ((ofResults p rs).accepted.map (·.1) ++ (ofResults p rs).failed.map (·.1)).Perm
      (List.range' p rs.length) := by
  fun_induction ofResults p rs with
  | case1 => exact List.Perm.refl _
  | case2 p i rs o ih => exact ih.cons p
  | case3 p e rs o ih =>
    -- the failed declaration comes before all others, the accepted ones among them
    have hmiddle : (o.accepted.map (·.1) ++ p :: o.failed.map (·.1)).Perm
        (p :: (o.accepted.map (·.1) ++ o.failed.map (·.1))) := List.perm_middle
    exact hmiddle.trans (ih.cons p)

theorem ascending_ofResults (p : Nat) (rs : List (Except SignatureError Interface)) :
    ((ofResults p rs).accepted.map (·.1)).Pairwise (· < ·) ∧
      ((ofResults p rs).failed.map (·.1)).Pairwise (· < ·) := by
  have hfront {p : Nat} {rs : List (Except SignatureError Interface)} {k : Nat}
      (hk : k ∈ (ofResults (p + 1) rs).accepted.map (·.1) ++
        (ofResults (p + 1) rs).failed.map (·.1)) : p < k := by
    have hrange := (perm_positions_ofResults (p + 1) rs).mem_iff.1 hk
    rw [List.mem_range'_1] at hrange
    omega
  fun_induction ofResults p rs with
  | case1 => exact ⟨List.Pairwise.nil, List.Pairwise.nil⟩
  | case2 p i rs o ih =>
    refine ⟨List.Pairwise.cons ?_ ih.1, ih.2⟩
    intro k hk
    exact hfront (List.mem_append_left _ hk)
  | case3 p e rs o ih =>
    refine ⟨ih.1, List.Pairwise.cons ?_ ih.2⟩
    intro k hk
    exact hfront (List.mem_append_right _ hk)

theorem sorts_canonicalizeAll (inputs : List String) : Sorts inputs (canonicalizeAll inputs) := by
  have hascending := ascending_ofResults 0 (inputs.map canonicalize)
  constructor
  case accepted =>
    intro k i
    unfold canonicalizeAll
    rw [mem_accepted_ofResults]
    simp
  case failed =>
    intro k e
    unfold canonicalizeAll
    rw [mem_failed_ofResults]
    simp
  case accepted_ascending => exact hascending.1
  case failed_ascending => exact hascending.2
  case once =>
    have hpositions := perm_positions_ofResults 0 (inputs.map canonicalize)
    rw [List.length_map, ← List.range_eq_range'] at hpositions
    exact hpositions

theorem toOption_eq_some_iff {ε α : Type} {x : Except ε α} {a : α} :
    x.toOption = some a ↔ x = .ok a := by
  cases x with
  | ok b => simp [Except.toOption]
  | error e => simp [Except.toOption]

/-- Nothing fails exactly if every declaration of the list is accepted. -/
theorem failed_eq_nil_iff (inputs : List String) :
    (canonicalizeAll inputs).failed = [] ↔ ∀ raw ∈ inputs, ∃ i, canonicalize raw = .ok i := by
  have hfailed := (sorts_canonicalizeAll inputs).failed
  constructor
  · intro hnil raw hraw
    obtain ⟨k, hk⟩ := List.mem_iff_getElem?.1 hraw
    cases hresult : canonicalize raw with
    | ok i => exact ⟨i, rfl⟩
    | error e =>
      -- its error would stand under its position
      have hmem := (hfailed k e).2 ⟨raw, hk, hresult⟩
      rw [hnil] at hmem
      contradiction
  · intro haccepted
    apply List.eq_nil_iff_forall_not_mem.2
    rintro ⟨k, e⟩ hmem
    obtain ⟨raw, hk, herror⟩ := (hfailed k e).1 hmem
    obtain ⟨i, hi⟩ := haccepted raw (List.mem_of_getElem? hk)
    rw [hi] at herror
    contradiction

/-- The declarations of a list that fail, in order and each with its error. -/
def failures (inputs : List String) : List (String × SignatureError) :=
  inputs.filterMap fun raw =>
    match canonicalize raw with
    | .ok _ => none
    | .error e => some (raw, e)

theorem of_mem_failures {inputs : List String} {raw : String} (h : (raw, e) ∈ failures inputs) :
    raw ∈ inputs ∧ canonicalize raw = .error e := by
  obtain ⟨raw', hmem, heq⟩ := List.mem_filterMap.1 h
  split at heq
  · contradiction
  · next herror =>
    obtain ⟨rfl, rfl⟩ := Prod.mk.inj (Option.some.inj heq)
    exact ⟨hmem, herror⟩

/-- The declarations that fail are those at the positions under which the errors stand. -/
theorem map_failed_canonicalizeAll (inputs : List String) :
    (canonicalizeAll inputs).failed.map (fun (k, e) => (inputs[k]?, e)) =
      (failures inputs).map fun (raw, e) => (some raw, e) := by
  -- the positions count from the start of a list that ends with the one at hand
  have hall (front inputs : List String) :
      (ofResults front.length (inputs.map canonicalize)).failed.map
          (fun (k, e) => ((front ++ inputs)[k]?, e)) =
        (failures inputs).map fun (raw, e) => (some raw, e) := by
    induction inputs generalizing front with
    | nil => rfl
    | cons raw inputs ih =>
      have hrest := ih (front ++ [raw])
      rw [List.length_append, List.length_singleton, List.append_assoc, List.singleton_append] at hrest
      cases hresult : canonicalize raw with
      | ok i => simpa [failures, ofResults, hresult] using hrest
      | error e => simpa [failures, ofResults, hresult] using hrest
  exact hall [] inputs

theorem map_fst_failures (inputs : List String) :
    (failures inputs).map (·.1) = inputs.filter fun raw => (canonicalize raw).toOption.isNone := by
  induction inputs with
  | nil => rfl
  | cons raw inputs ih =>
    cases hresult : canonicalize raw with
    | ok i => simpa [failures, hresult, Except.toOption] using ih
    | error e => simpa [failures, hresult, Except.toOption] using ih

theorem length_failures (inputs : List String) :
    (failures inputs).length = (canonicalizeAll inputs).failed.length := by
  have hlength := congrArg List.length (map_failed_canonicalizeAll inputs)
  simpa using hlength.symm

theorem isEmpty_failed_iff (inputs : List String) :
    (canonicalizeAll inputs).failed.isEmpty = true ↔ failures inputs = [] := by
  rw [List.isEmpty_iff, ← List.length_eq_zero_iff, ← length_failures, List.length_eq_zero_iff]

/-- Every declaration of a list is accepted or fails. -/
theorem length_accepted_add_failures (inputs : List String) :
    (canonicalizeAll inputs).accepted.length + (failures inputs).length = inputs.length := by
  have honce := (sorts_canonicalizeAll inputs).once.length_eq
  rw [length_failures]
  simpa using honce

/-! ## One outcome after the other -/

theorem append_def (a b : Outcome) : a ++ b = ⟨a.accepted ++ b.accepted, a.failed ++ b.failed⟩ := rfl

theorem append_assoc (a b c : Outcome) : a ++ b ++ c = a ++ (b ++ c) := by
  simp only [append_def, List.append_assoc]

theorem append_empty (o : Outcome) : o ++ {} = o := by
  simp only [append_def, List.append_nil]

theorem empty_append (o : Outcome) : {} ++ o = o := rfl

theorem ofResults_append (p : Nat) (rs ss : List (Except SignatureError Interface)) :
    ofResults p (rs ++ ss) = ofResults p rs ++ ofResults (p + rs.length) ss := by
  fun_induction ofResults p rs with
  | case1 => rfl
  | case2 p i rs o ih =>
    have hlength : p + (rs.length + 1) = p + 1 + rs.length := by omega
    rw [List.cons_append, ofResults, ih, List.length_cons, hlength]
    rfl
  | case3 p e rs o ih =>
    have hlength : p + (rs.length + 1) = p + 1 + rs.length := by omega
    rw [List.cons_append, ofResults, ih, List.length_cons, hlength]
    rfl

/-- Moved positions are those of results that start later. -/
theorem shift_ofResults (base p : Nat) (rs : List (Except SignatureError Interface)) :
    (ofResults p rs).shift base = ofResults (base + p) rs := by
  fun_induction ofResults p rs with
  | case1 => rfl
  | case2 p i rs o ih =>
    rw [ofResults, Nat.add_assoc, ← ih]
    rfl
  | case3 p e rs o ih =>
    rw [ofResults, Nat.add_assoc, ← ih]
    rfl

theorem shift_canonicalizeAll (base : Nat) (inputs : List String) :
    (canonicalizeAll inputs).shift base = ofResults base (inputs.map canonicalize) := by
  unfold canonicalizeAll
  rw [shift_ofResults, Nat.add_zero]

/-- The outcome of two lists in a row. -/
theorem canonicalizeAll_append (as bs : List String) :
    canonicalizeAll (as ++ bs) =
      canonicalizeAll as ++ (canonicalizeAll bs).shift as.length := by
  rw [shift_canonicalizeAll]
  unfold canonicalizeAll
  rw [List.map_append, ofResults_append, List.length_map, Nat.zero_add]

end Outcome

/-! ## Pieces -/

open Outcome

variable {n : Nat} {α : Type}

/-- A piece starts inside the list. -/
theorem mul_lt_length_of_lt_length_chunks (hn : 0 < n) {xs : List α} {k : Nat}
    (hk : k < (chunks n xs).length) : k * n < xs.length := by
  fun_induction chunks n xs generalizing k with
  | case1 => exact absurd hk (Nat.not_lt_zero k)
  | case2 x xs ih =>
    rw [List.length_cons] at hk ⊢
    cases k with
    | zero => omega
    | succ k =>
      have hrest := ih (Nat.lt_of_succ_lt_succ hk)
      rw [List.length_drop] at hrest
      rw [Nat.succ_mul]
      omega

/-- The outcomes of pieces of which all but the last have full length, put one after the other, are the
outcome of the list that they make up. The pieces are numbered from `j`, and the list starts where the
piece `j` does. -/
theorem foldl_pieces (pieces : List (List String)) (hfull : ∀ p ∈ pieces.dropLast, p.length = n)
    (j : Nat) (o : Outcome) :
    (pieces.mapIdx fun k piece => (canonicalizeAll piece).shift ((j + k) * n)).foldl (· ++ ·) o =
      o ++ (canonicalizeAll pieces.flatten).shift (j * n) := by
  induction pieces generalizing j o with
  | nil => exact (append_empty o).symm
  | cons piece pieces ih =>
    have hnumber : (fun k piece => (canonicalizeAll piece).shift ((j + (k + 1)) * n)) =
        fun k piece => (canonicalizeAll piece).shift ((j + 1 + k) * n) := by
      funext k piece
      congr 2
      omega
    have hrest : ∀ p ∈ pieces.dropLast, p.length = n := by
      intro p hp
      apply hfull
      rw [List.dropLast_cons_of_ne_nil (List.ne_nil_of_mem (List.dropLast_subset _ hp))]
      exact List.mem_cons_of_mem _ hp
    rw [List.mapIdx_cons, List.foldl_cons, hnumber, ih hrest, append_assoc, Nat.add_zero,
      List.flatten_cons]
    simp only [shift_canonicalizeAll, List.map_append, ofResults_append, List.length_map]
    cases pieces with
    | nil =>
      -- nothing follows the last piece, so its length does not matter
      rfl
    | cons next pieces =>
      rw [hfull piece List.mem_cons_self, Nat.succ_mul]

/-- Whatever the size of the pieces, the outcomes of the pieces make up the outcome of the list, which
holds every declaration once under its position. Each piece starts inside the list, so the position at
which it starts is computed without overflow in 64 bits. -/
theorem canonicalizeInChunks_eq_canonicalizeAll (size : Nat) (inputs : List String) :
    canonicalizeInChunks size inputs = canonicalizeAll inputs ∧
      Sorts inputs (canonicalizeAll inputs) ∧
      ∀ k, k < (chunks (max size 1) inputs).length →
        k * max size 1 < inputs.length ∧
          (inputs.length < 2 ^ 64 →
            (UInt64.ofNat k * UInt64.ofNat (max size 1)).toNat = k * max size 1) := by
  have hsize : 0 < max size 1 := by omega
  refine ⟨?_, sorts_canonicalizeAll inputs, ?_⟩
  · have hpieces := foldl_pieces (chunks (max size 1) inputs)
      (fun _ => length_of_mem_dropLast_chunks hsize) 0 {}
    simp only [Nat.zero_add, Nat.zero_mul, empty_append, flatten_chunks] at hpieces
    unfold canonicalizeInChunks
    rw [hpieces, shift_canonicalizeAll]
    rfl
  · intro k hk
    have hstart := mul_lt_length_of_lt_length_chunks hsize hk
    refine ⟨hstart, ?_⟩
    intro hlength
    rw [UInt64.toNat_mul, UInt64.toNat_ofNat', UInt64.toNat_ofNat', ← Nat.mul_mod]
    exact Nat.mod_eq_of_lt (Nat.lt_trans hstart hlength)

/-- Three declarations in pieces of two; the second piece starts at position two. -/
theorem canonicalizeInChunks_of_three :
    canonicalizeInChunks 2 ["a()", "broken(", "b()"] = canonicalizeAll ["a()", "broken(", "b()"] ∧
      1 < (chunks (max 2 1) ["a()", "broken(", "b()"]).length ∧
      (UInt64.ofNat 1 * UInt64.ofNat (max 2 1)).toNat = 2 := by
  have hpieces : 1 < (chunks (max 2 1) ["a()", "broken(", "b()"]).length := by simp [chunks]
  rcases canonicalizeInChunks_eq_canonicalizeAll 2 ["a()", "broken(", "b()"] with ⟨heq, -, hstart⟩
  exact ⟨heq, hpieces, (hstart 1 hpieces).2 (by simp)⟩

end AbiSig
