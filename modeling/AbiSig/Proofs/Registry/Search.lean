import AbiSig.Proofs.Interface.Language
import AbiSig.Proofs.Registry.Listed

/-!
# Searching the registry and searching the list

A registry keeps of several interfaces with the same digest the first one only. What can be asked of
it by digest or by selector can be asked of the whole list that was presented to it, too.

1. **By digest**: the interface with a digest is the first one of the list that has it
   (`find?_foldl_noted`).
2. **By a property of digests**: it makes no difference whether the interfaces with the property are
   picked before or after the later ones of the same digest are left out (`filter_foldl_noted`).
3. **The registry of a listing** therefore answers by digest with the first interface declared
   (`withDigest?_load`), and by selector with those declared, each digest once
   (`withSelector_load`). For the selector this needs that the interfaces of a listing have the
   selector of their digest (`selector_of_mem_presented`); the registry alone does not ask for that.
-/

namespace AbiSig.Registry

variable {known is : List Interface} {i : Interface} {r : Registry} {d : Digest}

/-! ## The list -/

/-- Nothing but the interfaces presented comes into the list, and they keep their order. -/
theorem sublist_foldl_noted (known is : List Interface) :
    (is.foldl noted known).Sublist (known ++ is) := by
  induction is generalizing known with
  | nil => exact (List.append_nil known).symm ▸ List.Sublist.refl known
  | cons i is ih =>
    have hstep : (noted known i).Sublist (known ++ [i]) := by
      by_cases hi : i.digest ∈ known.map (·.digest)
      · rw [noted_of_mem hi]
        exact List.sublist_append_left known [i]
      · rw [noted_of_not_mem hi]
    have hrest := (ih (noted known i)).trans (hstep.append_right is)
    rw [List.append_assoc] at hrest
    exact hrest

/-- An interface that is noted is found under its digest, if no earlier one is. -/
theorem find?_noted (known : List Interface) (i : Interface) (d : Digest) :
    (noted known i).find? (·.digest == d) =
      (known ++ [i]).find? (·.digest == d) := by
  by_cases hi : i.digest ∈ known.map (·.digest)
  · rw [noted_of_mem hi, List.find?_append]
    rcases List.mem_map.1 hi with ⟨j, hj, hdigest⟩
    cases hfind : known.find? (·.digest == d) with
    | some k => rfl
    | none =>
      -- then the digest sought is not that of the interface
      have hne := List.find?_eq_none.1 hfind j hj
      rw [hdigest] at hne
      simp [hne]
  · rw [noted_of_not_mem hi]

/-- The interface of the list with a digest is the first one presented that has it. -/
theorem find?_foldl_noted (known is : List Interface) (d : Digest) :
    (is.foldl noted known).find? (·.digest == d) = (known ++ is).find? (·.digest == d) := by
  induction is generalizing known with
  | nil =>
    rw [List.append_nil]
    rfl
  | cons i is ih =>
    rw [List.foldl_cons, ih, List.find?_append, find?_noted, ← List.find?_append,
      List.append_assoc]
    rfl

/-- Under the digest of an interface of a list, an interface is found. -/
theorem exists_find?_digest (hi : i ∈ is) :
    ∃ j, is.find? (·.digest == i.digest) = some j ∧ j.digest = i.digest := by
  cases hfind : is.find? (·.digest == i.digest) with
  | none =>
    have hne := List.find?_eq_none.1 hfind i hi
    exact absurd (beq_self_eq_true i.digest) hne
  | some j =>
    have hdigest := List.find?_some hfind
    exact ⟨j, rfl, eq_of_beq hdigest⟩

/-- An interface presented has its digest in the list. -/
theorem exists_mem_foldl_noted (known : List Interface) (hi : i ∈ is) :
    ∃ j ∈ is.foldl noted known, j.digest = i.digest := by
  obtain ⟨j, hfirst, hdigest⟩ := exists_find?_digest (List.mem_append_right known hi)
  rw [← find?_foldl_noted known is i.digest] at hfirst
  exact ⟨j, List.mem_of_find?_eq_some hfirst, hdigest⟩

/-- Noting an interface and picking by digest: either may come first. -/
theorem filter_noted (p : Digest → Bool) (known : List Interface) (i : Interface) :
    (noted known i).filter (fun j => p j.digest) =
      ([i].filter fun j => p j.digest).foldl noted (known.filter fun j => p j.digest) := by
  by_cases hp : p i.digest = true
  · have hone : [i].filter (fun j => p j.digest) = [i] := by simp [hp]
    rw [hone]
    by_cases hi : i.digest ∈ known.map (·.digest)
    · -- the earlier interface with this digest is picked as well
      rcases List.mem_map.1 hi with ⟨j, hj, hdigest⟩
      have hpicked : i.digest ∈ (known.filter fun j => p j.digest).map (·.digest) := by
        refine List.mem_map.2 ⟨j, List.mem_filter.2 ⟨hj, ?_⟩, hdigest⟩
        rw [hdigest]
        exact hp
      rw [noted_of_mem hi]
      exact (noted_of_mem hpicked).symm
    · have hpicked : i.digest ∉ (known.filter fun j => p j.digest).map (·.digest) := by
        intro hmem
        rcases List.mem_map.1 hmem with ⟨j, hj, hdigest⟩
        exact hi (List.mem_map.2 ⟨j, List.mem_of_mem_filter hj, hdigest⟩)
      rw [noted_of_not_mem hi, List.filter_append, hone]
      exact (noted_of_not_mem hpicked).symm
  · have hnone : [i].filter (fun j => p j.digest) = [] := by simp [hp]
    rw [hnone]
    by_cases hi : i.digest ∈ known.map (·.digest)
    · rw [noted_of_mem hi]
      rfl
    · rw [noted_of_not_mem hi, List.filter_append, hnone, List.append_nil]
      rfl

/-- What is picked of the list by digest is the list of what is picked. -/
theorem filter_foldl_noted (p : Digest → Bool) (known is : List Interface) :
    (is.foldl noted known).filter (fun i => p i.digest) =
      (is.filter fun i => p i.digest).foldl noted (known.filter fun i => p i.digest) := by
  induction is generalizing known with
  | nil => rfl
  | cons i is ih =>
    rw [List.foldl_cons, ih, filter_noted, ← List.foldl_append, ← List.filter_append]
    rfl

/-! ## The registry of a listing -/

/-- The interface with a digest is the first one of the list that has it. -/
theorem Represents.withDigest?_eq_find? (h : Represents r known) (d : Digest) :
    r.withDigest? d = known.find? (·.digest == d) := by
  cases hfind : known.find? (·.digest == d) with
  | some i =>
    have hdigest := List.find?_some hfind
    exact (h.byDigest d i).2 ⟨List.mem_of_find?_eq_some hfind, eq_of_beq hdigest⟩
  | none =>
    apply Option.eq_none_iff_forall_ne_some.2
    intro i hi
    obtain ⟨hmem, hdigest⟩ := (h.byDigest d i).1 hi
    exact List.find?_eq_none.1 hfind i hmem (beq_iff_eq.2 hdigest)

/-- An interface of a listing has the selector of its digest. -/
theorem selector_of_mem_presented {text : String} (hi : i ∈ (Call.load text).presented) :
    i.selector = i.digest.selector := by
  rcases List.mem_filterMap.1 hi with ⟨line, -, hline⟩
  cases hresult : canonicalize line with
  | error e =>
    rw [hresult] at hline
    contradiction
  | ok j =>
    rw [hresult] at hline
    have hij : j = i := Option.some.inj hline
    rw [hij] at hresult
    exact (keys_of_canonicalize hresult).2

/-- A new registry that has loaded a listing answers by digest with the first interface declared. -/
theorem withDigest?_load (text : String) (d : Digest) :
    (({} : Registry).load text).registry.withDigest? d =
      (Call.load text).presented.find? (·.digest == d) := by
  have hrepresents := (represents_empty.load text).1
  rw [hrepresents.withDigest?_eq_find? d, find?_foldl_noted, List.nil_append]

/-- It answers by selector with those declared, in order and each digest once. -/
theorem withSelector_load (text : String) (s : Selector) :
    (({} : Registry).load text).registry.withSelector s =
      ((Call.load text).presented.filter (·.selector == s)).foldl noted [] := by
  have hrepresents := (represents_empty.load text).1
  have hselector : ∀ i ∈ (Call.load text).presented,
      (i.selector == s) = (i.digest.selector == s) := by
    intro i hi
    rw [selector_of_mem_presented hi]
  have hlisted : ∀ i ∈ (Call.load text).presented.foldl noted [],
      (i.selector == s) = (i.digest.selector == s) := by
    intro i hi
    exact hselector i ((sublist_foldl_noted [] _).subset hi)
  rw [hrepresents.withSelector s, List.filter_congr hlisted, List.filter_congr hselector]
  exact filter_foldl_noted (fun d => d.selector == s) [] _

end AbiSig.Registry
