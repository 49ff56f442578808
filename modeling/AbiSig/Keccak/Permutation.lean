/-!
# The permutation Keccak-f[1600]

A state has 25 lanes of 64 bits, lane `(x, y)` at index `x + 5 y`. A round is `θ`, then `ρ` and `π`
in one step, then `χ` and `ι`; the permutation is 24 rounds that differ in the constant of `ι`.
-/

namespace AbiSig.Keccak

/-- 25 lanes of 64 bits. -/
abbrev State := Vector UInt64 25

namespace State

/-- The lane in column `x` and row `y`. -/
def lane (s : State) (x y : Fin 5) : UInt64 :=
  s[x.val + 5 * y.val]

/-- The state with the given lanes. -/
def ofLanes (f : Fin 5 → Fin 5 → UInt64) : State :=
  Vector.ofFn fun i => f ⟨i.val % 5, by omega⟩ ⟨i.val / 5, by omega⟩

end State

/-- The word turned left by `n` bits, for `n` below 64. -/
def rotateLeft (w : UInt64) (n : UInt64) : UInt64 :=
  (w <<< n) ||| (w >>> (64 - n))

/-! ## Tables -/

/-- By how many bits `ρ` turns each lane, lane `(x, y)` at index `x + 5 y`. -/
def rotations : Vector UInt64 25 :=
  #v[0, 1, 62, 28, 27,
     36, 44, 6, 55, 20,
     3, 10, 43, 25, 39,
     41, 45, 15, 21, 8,
     18, 2, 61, 56, 14]

/-- The constants of `ι`, one for each round. -/
def roundConstants : List UInt64 :=
  [0x0000000000000001, 0x0000000000008082, 0x800000000000808A, 0x8000000080008000,
   0x000000000000808B, 0x0000000080000001, 0x8000000080008081, 0x8000000000008009,
   0x000000000000008A, 0x0000000000000088, 0x0000000080008009, 0x000000008000000A,
   0x000000008000808B, 0x800000000000008B, 0x8000000000008089, 0x8000000000008003,
   0x8000000000008002, 0x8000000000000080, 0x000000000000800A, 0x800000008000000A,
   0x8000000080008081, 0x8000000000008080, 0x0000000080000001, 0x8000000080008008]

/-! ## Steps of a round -/

/-- `θ` adds to every lane the parity of the column before and that of the column behind, the
latter turned by one bit. -/
def theta (s : State) : State :=
  let parity : Vector UInt64 5 := Vector.ofFn fun x =>
    s.lane x 0 ^^^ s.lane x 1 ^^^ s.lane x 2 ^^^ s.lane x 3 ^^^ s.lane x 4
  let change : Vector UInt64 5 := Vector.ofFn fun x =>
    parity[(x + 4).val] ^^^ rotateLeft parity[(x + 1).val] 1
  State.ofLanes fun x y => s.lane x y ^^^ change[x.val]

/-- `ρ` turns the lanes and `π` moves lane `(x, y)` to `(y, 2 x + 3 y)`. -/
def rhoPi (s : State) : State :=
  State.ofLanes fun x y => rotateLeft (s.lane (x + 3 * y) x) (State.lane rotations (x + 3 * y) x)

/-- `χ` combines each lane with the next two of its row. -/
def chi (s : State) : State :=
  State.ofLanes fun x y => s.lane x y ^^^ (~~~(s.lane (x + 1) y) &&& s.lane (x + 2) y)

/-- `ι` adds the constant of the round to lane `(0, 0)`. -/
def iota (constant : UInt64) (s : State) : State :=
  s.set 0 (s[0] ^^^ constant)

/-- One round. -/
def round (s : State) (constant : UInt64) : State :=
  iota constant (chi (rhoPi (theta s)))

/-- The permutation. -/
def permute (s : State) : State :=
  roundConstants.foldl round s

end AbiSig.Keccak
