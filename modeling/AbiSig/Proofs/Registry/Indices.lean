import AbiSig.Registry
import Mathlib.Data.List.Nodup

/-!
# Indices of a list of interfaces

The registry keeps the digests of its interfaces twice more, by selector and by name. Both maps are
indices of one list: under each key stand the digests of the interfaces with this key, in the order of
the list (`Indexes`).

1. An interface at the end of the list is indexed by one more digest at the end of its entry
   (`Indexes.append`).
2. If no two interfaces of the list have the same digest, each digest stands in the index once
   (`Indexes.count_eq_one`).
-/

namespace AbiSig.Registry

variable {κ : Type} [BEq κ] [Hashable κ] {m : Std.HashMap κ (List Digest)} {key : Interface → κ}
  {known : List Interface} {i : Interface}

/-- Under each key stand the digests of the interfaces with this key. -/
def Indexes (m : Std.HashMap κ (List Digest)) (key : Interface → κ) (known : List Interface) : Prop :=
  ∀ k, m[k]?.getD [] = (known.filter (key · == k)).map (·.digest)

/-- All digests of an index, entry after entry. -/
def digests (m : Std.HashMap κ (List Digest)) : List Digest :=
  m.toList.flatMap (·.2)

theorem Indexes.empty (key : Interface → κ) : Indexes {} key [] := by
  intro k
  rw [Std.HashMap.getElem?_empty]
  rfl

variable [LawfulBEq κ]

/-- One more interface is one more digest at the end of its entry. -/
theorem Indexes.append (h : Indexes m key known) (i : Interface) :
    Indexes (m.alter (key i) (entryWith i.digest)) key (known ++ [i]) := by
  intro k
  rw [Std.HashMap.getElem?_alter, List.filter_append, List.map_append, ← h k]
  by_cases hk : key i = k
  · subst hk
    simp [entryWith]
  · simp [hk]

/-- An entry of the index, by its key. -/
theorem Indexes.of_mem_toList {k : κ} {entry : List Digest} (h : Indexes m key known)
    (hentry : (k, entry) ∈ m.toList) : entry = (known.filter (key · == k)).map (·.digest) := by
  have hget : m[k]? = some entry := Std.HashMap.mem_toList_iff_getElem?_eq_some.1 hentry
  rw [← h k, hget, Option.getD_some]

/-- Every interface of the list has its entry. -/
theorem Indexes.exists_entry (h : Indexes m key known) (hi : i ∈ known) :
    ∃ entry, (key i, entry) ∈ m.toList ∧ i.digest ∈ entry := by
  have hmem : i.digest ∈ m[key i]?.getD [] := by
    rw [h (key i)]
    exact List.mem_map.2 ⟨i, List.mem_filter.2 ⟨hi, beq_self_eq_true (key i)⟩, rfl⟩
  cases hget : m[key i]? with
  | none =>
    rw [hget] at hmem
    exact absurd hmem List.not_mem_nil
  | some entry =>
    rw [hget] at hmem
    exact ⟨entry, Std.HashMap.mem_toList_iff_getElem?_eq_some.2 hget, hmem⟩

/-- If no two interfaces of the list have the same digest, the entries of other keys do not have the
digest of an interface. -/
theorem Indexes.not_mem_of_ne {k : κ} {entry : List Digest} (h : Indexes m key known)
    (hdistinct : (known.map (·.digest)).Nodup) (hi : i ∈ known) (hentry : (k, entry) ∈ m.toList)
    (hk : k ≠ key i) : i.digest ∉ entry := by
  intro hmem
  rw [h.of_mem_toList hentry] at hmem
  rcases List.mem_map.1 hmem with ⟨j, hj, hdigest⟩
  rcases List.mem_filter.1 hj with ⟨hj, hkey⟩
  have hij : j = i := List.inj_on_of_nodup_map hdistinct hj hi hdigest
  rw [hij] at hkey
  exact hk (eq_of_beq hkey).symm

/-- A digest that stands once in the entry of one key, and in no entry of another, stands once in all
entries together. -/
theorem count_flatMap_eq_one {α : Type} {es : List (α × List Digest)} {k : α} {entry : List Digest}
    {d : Digest} (hkeys : (es.map (·.1)).Nodup) (hentry : (k, entry) ∈ es) (hown : entry.count d = 1)
    (hothers : ∀ e ∈ es, e.1 ≠ k → d ∉ e.2) : (es.flatMap (·.2)).count d = 1 := by
  induction es with
  | nil => exact absurd hentry List.not_mem_nil
  | cons e es ih =>
    rw [List.map_cons, List.nodup_cons] at hkeys
    rw [List.forall_mem_cons] at hothers
    rw [List.flatMap_cons, List.count_append]
    rcases List.mem_cons.1 hentry with rfl | hentry
    · -- the entry comes first, and no other one has its key
      have hrest : d ∉ es.flatMap (·.2) := by
        intro hmem
        rcases List.mem_flatMap.1 hmem with ⟨e, he, hd⟩
        have hkey : e.1 ≠ k := by
          rintro rfl
          exact hkeys.1 (List.mem_map.2 ⟨e, he, rfl⟩)
        exact hothers.2 e he hkey hd
      rw [hown, List.count_eq_zero_of_not_mem hrest]
    · have hkey : e.1 ≠ k := by
        rintro rfl
        exact hkeys.1 (List.mem_map.2 ⟨_, hentry, rfl⟩)
      rw [List.count_eq_zero_of_not_mem (hothers.1 hkey), ih hkeys.2 hentry hothers.2]

/-- If no two interfaces of the list have the same digest, each digest is indexed once. -/
theorem Indexes.count_eq_one (h : Indexes m key known)
    (hdistinct : (known.map (·.digest)).Nodup) (hi : i ∈ known) :
    (digests m).count i.digest = 1 := by
  rcases h.exists_entry hi with ⟨entry, hentry, hmem⟩
  have hown : entry.count i.digest = 1 := by
    have hsub : entry.Sublist (known.map (·.digest)) := by
      rw [h.of_mem_toList hentry]
      exact List.filter_sublist.map _
    exact List.count_eq_one_of_mem (hsub.nodup hdistinct) hmem
  -- an index has one entry for each key
  have hkeys : (m.toList.map (·.1)).Nodup := by
    rw [Std.HashMap.map_fst_toList_eq_keys]
    exact Std.HashMap.nodup_keys
  exact count_flatMap_eq_one hkeys hentry hown
    fun _ hother hkey => h.not_mem_of_ne hdistinct hi hother hkey

end AbiSig.Registry
