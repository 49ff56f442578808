import AbiSig.Chunks
import AbiSig.Interface

/-!
# Canonicalizing many declarations

`canonicalizeAll` sorts the results for a list of declarations into those accepted and those
failed, each with its position in the list. `canonicalizeInChunks` does the same piece by piece, for
callers that bound how much they work on at once; positions still refer to the whole list.
-/

namespace AbiSig

/-- The accepted and the failed declarations of a list, each with its position and in order. -/
structure Outcome where
  accepted : List (Nat × Interface) := []
  failed : List (Nat × SignatureError) := []
deriving Repr, DecidableEq

namespace Outcome

/-- The outcome of results in order, the first of which has the position given. -/
def ofResults (position : Nat) : List (Except SignatureError Interface) → Outcome
  | [] => {}
  | .ok i :: rs =>
    let o := ofResults (position + 1) rs
    { o with accepted := (position, i) :: o.accepted }
  | .error e :: rs =>
    let o := ofResults (position + 1) rs
    { o with failed := (position, e) :: o.failed }

/-- The accepted interfaces are the successes among the results, in order. -/
theorem map_accepted_ofResults (position : Nat) (rs : List (Except SignatureError Interface)) :
    (ofResults position rs).accepted.map (·.2) = rs.filterMap Except.toOption := by
  fun_induction ofResults position rs with
  | case1 => rfl
  | case2 position i rs o ih => exact congrArg (i :: ·) ih
  | case3 position e rs o ih => exact ih

/-- The outcome with every position moved by `base`. -/
def shift (base : Nat) (o : Outcome) : Outcome where
  accepted := o.accepted.map fun (position, i) => (base + position, i)
  failed := o.failed.map fun (position, e) => (base + position, e)

/-- One outcome after the other. -/
def append (a b : Outcome) : Outcome where
  accepted := a.accepted ++ b.accepted
  failed := a.failed ++ b.failed

instance : Append Outcome := ⟨append⟩

end Outcome

/-- The outcome for all declarations of a list. -/
def canonicalizeAll (inputs : List String) : Outcome :=
  .ofResults 0 (inputs.map canonicalize)

/-- The outcome for a list of declarations that is worked off in pieces of at most `size`; a size of
zero counts as one. -/
def canonicalizeInChunks (size : Nat) (inputs : List String) : Outcome :=
  let size := max size 1
  let outcomes := (chunks size inputs).mapIdx fun k chunk =>
    (canonicalizeAll chunk).shift (k * size)
  outcomes.foldl (· ++ ·) {}

end AbiSig
