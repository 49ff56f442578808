import AbiSig.Chunks
import AbiSig.Keccak.Permutation

/-!
# Keccak-256

The sponge over `permute` with a rate of 136 bytes and a digest of 32 bytes. The padding is the
one before standardisation: a single bit after the message and a single bit at the end of the
block, which makes digests differ from those of SHA3-256.
-/

namespace AbiSig.Keccak

/-- How many bytes of the message one permutation takes in. -/
def rate : Nat := 136

/-- The bytes that fill a message of the given length up to whole blocks; there is at least one. -/
def padding (length : Nat) : List UInt8 :=
  match rate - length % rate with
  | 0 | 1 => [0x81]
  | gap + 2 => 0x01 :: List.replicate gap 0x00 ++ [0x80]

/-- The word whose bytes, the lowest first, are given. -/
def laneOfBytes (bytes : List UInt8) : UInt64 :=
  bytes.foldr (fun b w => (w <<< 8) ||| b.toUInt64) 0

/-- The state after taking in one block. -/
def absorb (s : State) (block : List UInt8) : State :=
  let lanes := ((chunks 8 block).map laneOfBytes).toArray
  permute (Vector.ofFn fun i => s[i.val] ^^^ lanes.getD i.val 0)

/-- The first 32 bytes of the state, the lowest byte of a lane first. -/
def squeeze (s : State) : Vector UInt8 32 :=
  Vector.ofFn fun i => (s[i.val / 8] >>> (8 * UInt64.ofNat (i.val % 8))).toUInt8

/-- The Keccak-256 digest of the message. -/
def digest (message : List UInt8) : Vector UInt8 32 :=
  let blocks := chunks rate (message ++ padding message.length)
  squeeze (blocks.foldl absorb (Vector.replicate 25 0))

end AbiSig.Keccak
