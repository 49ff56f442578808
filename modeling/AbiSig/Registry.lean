import AbiSig.Batch
import AbiSig.Listing
import Std.Data.HashMap

/-!
# The registry of known interfaces

A registry answers which interfaces have a given digest, selector or name. Each digest is known
once: an interface whose digest is known already is not registered again. Lookups by selector and by
name give the interfaces in the order of their registration.
-/

namespace AbiSig

/-- The interfaces by digest, and the digests registered for each selector and each name. -/
structure Registry where
  byDigest : Std.HashMap Digest Interface := {}
  bySelector : Std.HashMap Selector (List Digest) := {}
  byName : Std.HashMap String (List Digest) := {}

namespace Registry

/-- How many interfaces are registered. -/
def size (r : Registry) : Nat :=
  r.byDigest.size

/-- Whether nothing is registered. -/
def isEmpty (r : Registry) : Bool :=
  r.size == 0

/-! ## Registration -/

/-- The entry with one more digest at its end. -/
def entryWith (digest : Digest) (entry : Option (List Digest)) : Option (List Digest) :=
  some (entry.getD [] ++ [digest])

/-- Registers an interface under its digest, its selector and its name, and says whether it is new.
The three keys are taken as they stand in the record. -/
def register (r : Registry) (i : Interface) : Registry × Bool :=
  if r.byDigest.contains i.digest then (r, false)
  else
    ({ byDigest := r.byDigest.insert i.digest i
       bySelector := r.bySelector.alter i.selector (entryWith i.digest)
       byName := r.byName.alter i.name (entryWith i.digest) }, true)

/-- Registers interfaces in order, and counts the new ones. -/
def registerAll (r : Registry) : List Interface → Registry × Nat
  | [] => (r, 0)
  | i :: is =>
    let (r, isNew) := r.register i
    let (r, count) := r.registerAll is
    (r, if isNew then count + 1 else count)

/-- A registry after loading a listing, the number of new interfaces, and the failed declarations
with their positions among the declarations of the listing. -/
structure Loaded where
  registry : Registry
  registered : Nat
  failed : List (Nat × SignatureError)

/-- Registers every declaration of a listing that is accepted. -/
def load (r : Registry) (text : String) : Loaded :=
  let outcome := canonicalizeAll (Listing.declarations text)
  let (registry, registered) := r.registerAll (outcome.accepted.map (·.2))
  { registry, registered, failed := outcome.failed }

/-! ## Lookup -/

/-- The interfaces registered under the digests. -/
def resolve (r : Registry) (digests : Option (List Digest)) : List Interface :=
  (digests.getD []).filterMap fun d => r.byDigest[d]?

/-- The interfaces with the selector, in the order of registration. -/
def withSelector (r : Registry) (s : Selector) : List Interface :=
  r.resolve r.bySelector[s]?

/-- The interface with the digest. -/
def withDigest? (r : Registry) (d : Digest) : Option Interface :=
  r.byDigest[d]?

/-- The interfaces with the name, in the order of registration. -/
def withName (r : Registry) (name : String) : List Interface :=
  r.resolve r.byName[name]?

end Registry

end AbiSig
