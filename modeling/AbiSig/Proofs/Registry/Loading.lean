import AbiSig.Proofs.Batch.Outcome
import AbiSig.Proofs.Listing.Joined
import AbiSig.Proofs.Registry.Search

/-!
# Loading listings into a registry

1. **In parts**: a listing that is made of two, with a line feed between them, is loaded like the two,
   one after the other. The registry is the same, the counts add up, and the failures of the second
   part are moved by the number of declarations of the first one (`load_append`).
2. **What a load does**: it appends to the list for which the registry stands
   (`prefix_foldl_noted`). So nothing that was known is lost, earlier answers go on at their end
   (`Represents.keeps`), and the count is that of the interfaces appended.
3. **Again**: what has been loaded is known, so loading it a second time registers nothing
   (`Represents.registerAll_of_known`).

`loading_after` puts all this together, for a registry after any calls.
-/

namespace AbiSig.Registry

variable {r r' : Registry} {known known' is : List Interface}

/-! ## In parts -/

/-- One load, and another one behind it; the first listing has `count` declarations. -/
def Loaded.append (count : Nat) (first second : Loaded) : Loaded where
  registry := second.registry
  registered := first.registered + second.registered
  failed := first.failed ++ second.failed.map fun (position, e) => (count + position, e)

theorem registerAll_cons (r : Registry) (i : Interface) (is : List Interface) :
    r.registerAll (i :: is) =
      (((r.register i).1.registerAll is).1,
        ((r.register i).1.registerAll is).2 + if (r.register i).2 then 1 else 0) := by
  rw [registerAll]
  rcases r.register i with ⟨r', isNew⟩
  cases isNew with
  | true => rfl
  | false => rfl

theorem registerAll_append (r : Registry) (is js : List Interface) :
    r.registerAll (is ++ js) =
      (((r.registerAll is).1.registerAll js).1,
        (r.registerAll is).2 + ((r.registerAll is).1.registerAll js).2) := by
  induction is generalizing r with
  | nil => simp [registerAll]
  | cons i is ih =>
    rw [List.cons_append, registerAll_cons, registerAll_cons, ih]
    simp only [Nat.add_right_comm]

/-- Loading a listing, by its outcome. -/
theorem load_eq (r : Registry) (text : String) :
    r.load text =
      { registry := (r.registerAll (Call.load text).presented).1
        registered := (r.registerAll (Call.load text).presented).2
        failed := (canonicalizeAll (Listing.declarations text)).failed } := by
  rw [← load_eq_registerAll r text]
  rfl

theorem presented_append (a b : String) :
    (Call.load (a ++ "\n" ++ b)).presented =
      (Call.load a).presented ++ (Call.load b).presented := by
  show (Listing.declarations (a ++ "\n" ++ b)).filterMap _ = _
  rw [Listing.declarations_append, List.filterMap_append]
  rfl

/-- Two listings with a line feed between them are loaded one after the other. -/
theorem load_append (r : Registry) (a b : String) :
    r.load (a ++ "\n" ++ b) =
      .append (Listing.declarations a).length (r.load a) ((r.load a).registry.load b) := by
  have hfailed := congrArg Outcome.failed
    (Outcome.canonicalizeAll_append (Listing.declarations a) (Listing.declarations b))
  rw [← Listing.declarations_append] at hfailed
  simp only [load_eq, presented_append, registerAll_append, hfailed]
  rfl

/-! ## What a load does -/

/-- Nothing that is known is lost: the later registry has each interface under its digest still, and
gives every answer of the earlier one first. -/
structure Keeps (r r' : Registry) : Prop where
  withDigest : ∀ d i, r.withDigest? d = some i → r'.withDigest? d = some i
  withSelector : ∀ s, r.withSelector s <+: r'.withSelector s
  withName : ∀ name, r.withName name <+: r'.withName name

/-- Interfaces come to the end of the list. -/
theorem prefix_foldl_noted (known is : List Interface) : known <+: is.foldl noted known := by
  induction is generalizing known with
  | nil => exact List.prefix_refl known
  | cons i is ih =>
    have hstep : known <+: noted known i := by
      by_cases hi : i.digest ∈ known.map (·.digest)
      · rw [noted_of_mem hi]
      · rw [noted_of_not_mem hi]
        exact List.prefix_append known [i]
    exact hstep.trans (ih (noted known i))

theorem Represents.keeps (h : Represents r known) (h' : Represents r' known')
    (hgrows : known <+: known') : Keeps r r' where
  withDigest := by
    intro d i hi
    obtain ⟨hmem, hdigest⟩ := (h.byDigest d i).1 hi
    exact (h'.byDigest d i).2 ⟨hgrows.subset hmem, hdigest⟩
  withSelector := by
    intro s
    rw [h.withSelector, h'.withSelector]
    exact hgrows.filter _
  withName := by
    intro name
    rw [h.withName, h'.withName]
    exact hgrows.filter _

/-- Interfaces whose digests are known are not registered. -/
theorem Represents.registerAll_of_known (h : Represents r known)
    (his : ∀ i ∈ is, i.digest ∈ known.map (·.digest)) : r.registerAll is = (r, 0) := by
  induction is with
  | nil => rfl
  | cons i is ih =>
    rw [List.forall_mem_cons] at his
    rw [registerAll_cons, h.register_of_mem his.1, ih his.2]
    rfl

/-- What loading a listing does to a registry. -/
structure LoadEffect (r : Registry) (text : String) : Prop where
  /-- The registry grows by what is reported. -/
  size : (r.load text).registry.size = r.size + (r.load text).registered
  keeps : Keeps r (r.load text).registry
  /-- What a declaration declares is found by its digest. -/
  found : ∀ raw ∈ Listing.declarations text, ∀ i, canonicalize raw = .ok i →
    ∃ j, (r.load text).registry.withDigest? i.digest = some j ∧ j.digest = i.digest
  /-- A second time nothing is new, and the same declarations fail. -/
  again : (r.load text).registry.load text =
    { registry := (r.load text).registry, registered := 0, failed := (r.load text).failed }

theorem Represents.loadEffect (h : Represents r known) (text : String) : LoadEffect r text := by
  obtain ⟨hloaded, hcount⟩ := h.load text
  have hknown : ∀ i ∈ (Call.load text).presented,
      ∃ j ∈ (Call.load text).presented.foldl noted known, j.digest = i.digest :=
    fun i hi => exists_mem_foldl_noted known hi
  constructor
  case size =>
    unfold Registry.size
    rw [hloaded.size, h.size, hcount]
  case keeps => exact h.keeps hloaded (prefix_foldl_noted known _)
  case found =>
    intro raw hraw i hi
    have hpresented : i ∈ (Call.load text).presented :=
      List.mem_filterMap.2 ⟨raw, hraw, by rw [hi]; rfl⟩
    obtain ⟨j, hj, hdigest⟩ := hknown i hpresented
    exact ⟨j, (hloaded.byDigest i.digest j).2 ⟨hj, hdigest⟩, hdigest⟩
  case again =>
    have hnothing : (r.load text).registry.registerAll (Call.load text).presented =
        ((r.load text).registry, 0) := by
      apply hloaded.registerAll_of_known
      intro i hi
      obtain ⟨j, hj, hdigest⟩ := hknown i hi
      exact List.mem_map.2 ⟨j, hj, hdigest⟩
    rw [load_eq (r.load text).registry text, hnothing]
    rfl

/-- What loads do to a registry after any calls: a listing may be loaded in parts, and each load adds
what its declarations declare and keeps the rest. -/
theorem loading_after (calls : List Call) :
    (∀ a b, (after calls).load (a ++ "\n" ++ b) =
      .append (Listing.declarations a).length ((after calls).load a)
        (((after calls).load a).registry.load b)) ∧
      ∀ text, LoadEffect (after calls) text :=
  ⟨load_append (after calls), (represents_after calls).loadEffect⟩

end AbiSig.Registry
