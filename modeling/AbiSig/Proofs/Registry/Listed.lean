import AbiSig.Proofs.Registry.Indices
import Mathlib.Data.List.Induction

/-!
# The registry as a list

A registry stands for the list of the interfaces that were presented to it, in the order in which they
came and each digest once. The digest and the selector of an interface are taken as they stand in the
record; nothing here asks whether they belong to its signature.

1. **The list**: `noted` adds one interface, `listed` is what a sequence of calls makes of it.
2. **The invariant**: `Represents` says what the three maps hold. One registration preserves it
   (`Represents.register`), so every sequence of calls does (`represents_after`).
3. **What can be asked**: `Answers` says what the registry answers, in terms of the list;
   `answers_after` says that it answers so after any calls.
-/

namespace AbiSig.Registry

/-! ## The list -/

/-- The list with the interface at its end, unless its digest is in the list already. -/
def noted (known : List Interface) (i : Interface) : List Interface :=
  if i.digest ∈ known.map (·.digest) then known else known ++ [i]

/-- What can be called to add to a registry. -/
inductive Call where
  | register (i : Interface)
  | load (text : String)

/-- The interfaces that a call presents to the registry, in order: the one to register, or those that
the declarations of the listing declare. -/
def Call.presented : Call → List Interface
  | register i => [i]
  | load text => (Listing.declarations text).filterMap fun line => (canonicalize line).toOption

/-- The registry after the call. -/
def call (r : Registry) : Call → Registry
  | .register i => (r.register i).1
  | .load text => (r.load text).registry

/-- The registry after calls on a new one. -/
def after (calls : List Call) : Registry :=
  calls.foldl call {}

/-- The list after the same calls. -/
def listed (calls : List Call) : List Interface :=
  (calls.flatMap Call.presented).foldl noted []

variable {r : Registry} {known : List Interface} {i : Interface}

theorem noted_of_mem (hi : i.digest ∈ known.map (·.digest)) : noted known i = known :=
  if_pos hi

theorem noted_of_not_mem (hi : i.digest ∉ known.map (·.digest)) : noted known i = known ++ [i] :=
  if_neg hi

/-- An interface is appended exactly if its digest is new. -/
theorem noted_eq_append_iff : noted known i = known ++ [i] ↔ i.digest ∉ known.map (·.digest) := by
  constructor
  · intro h hi
    rw [noted_of_mem hi] at h
    exact absurd h (by simp)
  · intro hi
    exact noted_of_not_mem hi

/-! ## The invariant -/

/-- The three maps hold the list, by digest, by selector and by name. -/
structure Represents (r : Registry) (known : List Interface) : Prop where
  /-- No two interfaces of the list have the same digest. -/
  distinct : (known.map (·.digest)).Nodup
  /-- A digest leads to the interface of the list that has it. -/
  byDigest : ∀ d i, r.byDigest[d]? = some i ↔ i ∈ known ∧ i.digest = d
  /-- No digest leads anywhere else. -/
  size : r.byDigest.size = known.length
  bySelector : Indexes r.bySelector (·.selector) known
  byName : Indexes r.byName (·.name) known

theorem represents_empty : Represents {} [] where
  distinct := List.nodup_nil
  byDigest := by
    intro d i
    rw [Std.HashMap.getElem?_empty]
    simp
  size := Std.HashMap.size_empty
  bySelector := Indexes.empty _
  byName := Indexes.empty _

theorem Represents.mem_byDigest_iff (h : Represents r known) (d : Digest) :
    d ∈ r.byDigest ↔ d ∈ known.map (·.digest) := by
  rw [Std.HashMap.mem_iff_isSome_getElem?, Option.isSome_iff_exists, List.mem_map]
  constructor
  · rintro ⟨i, hi⟩
    exact ⟨i, (h.byDigest d i).1 hi⟩
  · rintro ⟨i, hi⟩
    exact ⟨i, (h.byDigest d i).2 hi⟩

/-- An interface with a known digest is not registered. -/
theorem Represents.register_of_mem (h : Represents r known)
    (hi : i.digest ∈ known.map (·.digest)) : r.register i = (r, false) := by
  have hcontains : r.byDigest.contains i.digest = true :=
    Std.HashMap.contains_iff_mem.2 ((h.mem_byDigest_iff i.digest).2 hi)
  unfold register
  rw [if_pos hcontains]

/-- An interface with a new digest is registered, and comes to the end of the list. -/
theorem Represents.register_of_not_mem (h : Represents r known)
    (hi : i.digest ∉ known.map (·.digest)) :
    Represents (r.register i).1 (known ++ [i]) ∧ (r.register i).2 = true := by
  have hnew : i.digest ∉ r.byDigest := by rwa [h.mem_byDigest_iff]
  have hcontains : ¬ r.byDigest.contains i.digest = true := by
    rwa [Std.HashMap.contains_iff_mem]
  unfold register
  rw [if_neg hcontains]
  refine ⟨?_, rfl⟩
  constructor
  case distinct =>
    rw [List.map_append, List.map_cons, List.map_nil, ← List.concat_eq_append, List.nodup_concat]
    exact ⟨hi, h.distinct⟩
  case byDigest =>
    intro d j
    rw [Std.HashMap.getElem?_insert, List.mem_append, List.mem_singleton]
    by_cases hd : i.digest = d
    · -- the new interface is the only one with its digest
      subst hd
      rw [if_pos (beq_self_eq_true i.digest), Option.some.injEq]
      constructor
      · rintro rfl
        exact ⟨Or.inr rfl, rfl⟩
      · rintro ⟨hj | hj, hdigest⟩
        · exact absurd (List.mem_map.2 ⟨j, hj, hdigest⟩) hi
        · exact hj.symm
    · rw [if_neg (by simpa using hd), h.byDigest d j]
      constructor
      · rintro ⟨hj, hdigest⟩
        exact ⟨Or.inl hj, hdigest⟩
      · rintro ⟨hj | rfl, hdigest⟩
        · exact ⟨hj, hdigest⟩
        · exact absurd hdigest hd
  case size =>
    rw [Std.HashMap.size_insert, if_neg hnew, h.size, List.length_append]
    rfl
  case bySelector => exact h.bySelector.append i
  case byName => exact h.byName.append i

/-- One registration is one interface noted in the list. -/
theorem Represents.register (h : Represents r known) (i : Interface) :
    Represents (r.register i).1 (noted known i) ∧
      ((r.register i).2 = true ↔ noted known i = known ++ [i]) := by
  rw [noted_eq_append_iff]
  by_cases hi : i.digest ∈ known.map (·.digest)
  · rw [h.register_of_mem hi, noted_of_mem hi]
    exact ⟨h, by simp [hi]⟩
  · rw [noted_of_not_mem hi]
    rcases h.register_of_not_mem hi with ⟨hrepresents, hnew⟩
    exact ⟨hrepresents, by simp [hi, hnew]⟩

theorem length_noted (known : List Interface) (i : Interface) :
    (noted known i).length = known.length + if noted known i = known ++ [i] then 1 else 0 := by
  by_cases hi : i.digest ∈ known.map (·.digest)
  · rw [if_neg (by rwa [noted_eq_append_iff, not_not]), noted_of_mem hi]
    rfl
  · rw [if_pos (noted_eq_append_iff.2 hi), noted_of_not_mem hi, List.length_append]
    rfl

/-- Registrations in order are interfaces noted in order, and the count is that of the new ones. -/
theorem Represents.registerAll (h : Represents r known) (is : List Interface) :
    Represents (r.registerAll is).1 (is.foldl noted known) ∧
      known.length + (r.registerAll is).2 = (is.foldl noted known).length := by
  induction is generalizing r known with
  | nil => exact ⟨h, rfl⟩
  | cons i is ih =>
    rcases h.register i with ⟨hfirst, hnew⟩
    rcases ih hfirst with ⟨hothers, hcount⟩
    have hlength := length_noted known i
    unfold Registry.registerAll
    rw [List.foldl_cons]
    refine ⟨hothers, ?_⟩
    rw [← hcount, hlength]
    by_cases hadded : (r.register i).2 = true
    · simp only [hadded, if_true, if_pos (hnew.1 hadded)]
      omega
    · simp only [hadded, if_neg (mt hnew.2 hadded)]
      rfl

/-- Loading a listing registers what its declarations declare. -/
theorem load_eq_registerAll (r : Registry) (text : String) :
    ((r.load text).registry, (r.load text).registered) =
      r.registerAll (Call.load text).presented := by
  have hpresented : (canonicalizeAll (Listing.declarations text)).accepted.map (·.2) =
      (Call.load text).presented := by
    unfold canonicalizeAll Call.presented
    rw [Outcome.map_accepted_ofResults, List.filterMap_map]
    rfl
  rw [← hpresented]
  rfl

theorem Represents.load (h : Represents r known) (text : String) :
    Represents (r.load text).registry ((Call.load text).presented.foldl noted known) ∧
      known.length + (r.load text).registered =
        ((Call.load text).presented.foldl noted known).length := by
  have hall := h.registerAll (Call.load text).presented
  rw [← load_eq_registerAll r text] at hall
  exact hall

/-- One call is its interfaces noted in order. -/
theorem Represents.call (h : Represents r known) (c : Call) :
    Represents (r.call c) (c.presented.foldl noted known) := by
  cases c with
  | register i => exact (h.register i).1
  | load text => exact (h.load text).1

/-- After any calls the registry stands for the list of the same calls. -/
theorem represents_after (calls : List Call) : Represents (after calls) (listed calls) := by
  induction calls using List.reverseRecOn with
  | nil => exact represents_empty
  | append_singleton calls c ih =>
    unfold after listed
    rw [List.foldl_append, List.flatMap_append, List.foldl_append, List.flatMap_singleton]
    exact ih.call c

/-! ## Lookups -/

/-- The digests of known interfaces lead back to these interfaces; none is lost. -/
theorem Represents.resolve_map (h : Represents r known) {is : List Interface}
    (his : ∀ i ∈ is, i ∈ known) {entry : Option (List Digest)}
    (hentry : entry.getD [] = is.map (·.digest)) : r.resolve entry = is := by
  unfold resolve
  rw [hentry]
  clear hentry
  induction is with
  | nil => rfl
  | cons i is ih =>
    rw [List.forall_mem_cons] at his
    have hget : r.byDigest[i.digest]? = some i := (h.byDigest i.digest i).2 ⟨his.1, rfl⟩
    rw [List.map_cons, List.filterMap_cons_some hget, ih his.2]

theorem Represents.withSelector (h : Represents r known) (s : Selector) :
    r.withSelector s = known.filter (·.selector == s) :=
  h.resolve_map (fun _ hi => List.mem_of_mem_filter hi) (h.bySelector s)

theorem Represents.withName (h : Represents r known) (name : String) :
    r.withName name = known.filter (·.name == name) :=
  h.resolve_map (fun _ hi => List.mem_of_mem_filter hi) (h.byName name)

/-- Resolving an entry of an index gives one interface for each of its digests. -/
theorem Represents.map_resolve {κ : Type} [BEq κ] [LawfulBEq κ] [Hashable κ]
    {m : Std.HashMap κ (List Digest)} {key : Interface → κ} {k : κ} {entry : List Digest}
    (h : Represents r known) (hm : Indexes m key known) (hentry : m[k]? = some entry) :
    (r.resolve (some entry)).map (·.digest) = entry := by
  have hdigests : entry = (known.filter (key · == k)).map (·.digest) := by
    rw [← hm k, hentry, Option.getD_some]
  have hresolve : r.resolve (some entry) = known.filter (key · == k) :=
    h.resolve_map (fun _ hi => List.mem_of_mem_filter hi) hdigests
  rw [hresolve, ← hdigests]

/-- What a registry answers, in terms of a list. -/
structure Answers (r : Registry) (known : List Interface) : Prop where
  /-- A registration reports whether the interface was appended. -/
  register : ∀ i, (r.register i).2 = true ↔ noted known i = known ++ [i]
  /-- A load reports how many were. -/
  load : ∀ text, known.length + (r.load text).registered =
    ((Call.load text).presented.foldl noted known).length
  /-- The interface with a digest is the one of the list that has it. -/
  withDigest : ∀ d i, r.withDigest? d = some i ↔ i ∈ known ∧ i.digest = d
  /-- The interfaces with a selector are those of the list that have it, in order. -/
  withSelector : ∀ s, r.withSelector s = known.filter (·.selector == s)
  /-- The interfaces with a name are those of the list whose signature has it, in order. -/
  withName : ∀ name, r.withName name = known.filter (·.signature.name == name)
  size : r.size = known.length
  isEmpty : r.isEmpty = true ↔ known = []
  /-- Each digest of the list stands once among the digests of all selectors. -/
  selector_once : ∀ i ∈ known, (digests r.bySelector).count i.digest = 1
  /-- Each digest of the list stands once among the digests of all names. -/
  name_once : ∀ i ∈ known, (digests r.byName).count i.digest = 1
  /-- Each digest of a selector is resolved. -/
  selector_resolved : ∀ (s : Selector) (entry : List Digest),
    r.bySelector[s]? = some entry → (r.resolve (some entry)).map (·.digest) = entry
  /-- Each digest of a name is resolved. -/
  name_resolved : ∀ (name : String) (entry : List Digest),
    r.byName[name]? = some entry → (r.resolve (some entry)).map (·.digest) = entry

/-- After any calls on a new registry, whatever digests and selectors their interfaces have, it
answers like the list of the same calls. -/
theorem answers_after (calls : List Call) : Answers (after calls) (listed calls) := by
  have h := represents_after calls
  constructor
  case register => exact fun i => (h.register i).2
  case load => exact fun text => (h.load text).2
  case withDigest => exact h.byDigest
  case withSelector => exact h.withSelector
  case withName => exact h.withName
  case size => exact h.size
  case isEmpty =>
    unfold isEmpty size
    rw [h.size, beq_iff_eq, List.length_eq_zero_iff]
  case selector_once => exact fun i hi => h.bySelector.count_eq_one h.distinct hi
  case name_once => exact fun i hi => h.byName.count_eq_one h.distinct hi
  case selector_resolved => exact fun s entry hentry => h.map_resolve h.bySelector hentry
  case name_resolved => exact fun name entry hentry => h.map_resolve h.byName hentry

end AbiSig.Registry
