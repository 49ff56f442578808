import AbiSig.Error
import AbiSig.Keccak.Sponge

/-!
# Digests and selectors

A `Digest` is the Keccak-256 of a signature; events are logged under it. A `Selector` is its first
four bytes; methods are called by it. Both are written `0x` and lowercase digits, and both are read
back by `Hex.parse`.
-/

namespace AbiSig

open Text

/-- Four bytes by which a method is called. -/
structure Selector where
  bytes : Vector UInt8 4
deriving Repr, DecidableEq

/-- The 32 bytes of a Keccak-256 digest. -/
structure Digest where
  bytes : Vector UInt8 32
deriving Repr, DecidableEq

/-- The written form of bytes: `0x` and lowercase digits. -/
def hexText (bytes : List UInt8) : String :=
  String.ofList ('0' :: 'x' :: Hex.encode bytes)

namespace Selector

instance : Hashable Selector where
  hash s := hash s.bytes.toArray

/-- `0x` and eight lowercase digits. -/
def toHex (s : Selector) : String :=
  hexText s.bytes.toList

/-- Reads eight digits. -/
def parse (text : String) : Except SignatureError Selector :=
  match Hex.parse 4 text.toList with
  | .ok bytes => .ok ⟨bytes⟩
  | .error fault => .error (.invalidHex text fault)

/-- The order of selectors: that of their first bytes that differ. -/
def le (a b : Selector) : Bool :=
  a.bytes.toList ≤ b.bytes.toList

end Selector

namespace Digest

instance : Hashable Digest where
  hash d := hash d.bytes.toArray

/-- `0x` and 64 lowercase digits. -/
def toHex (d : Digest) : String :=
  hexText d.bytes.toList

/-- Reads 64 digits. -/
def parse (text : String) : Except SignatureError Digest :=
  match Hex.parse 32 text.toList with
  | .ok bytes => .ok ⟨bytes⟩
  | .error fault => .error (.invalidHex text fault)

/-- The first four bytes. -/
def selector (d : Digest) : Selector :=
  ⟨Vector.ofFn fun i => d.bytes[i.val]⟩

end Digest

/-- The Keccak-256 digest of the bytes. -/
def keccak256 (message : List UInt8) : Digest :=
  ⟨Keccak.digest message⟩

end AbiSig
