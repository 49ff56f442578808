import AbiSig.Declaration.Parameters
import AbiSig.Signature

/-!
# Interfaces

`canonicalize` carries a declaration through all stages: normal form, types, signature, digest and
selector. Its result is an `Interface`, or the error of the first stage that fails.
-/

namespace AbiSig

/-- A declaration with everything that is derived from it. -/
structure Interface where
  normalized : Normalized
  signature : Signature
  kind : Kind
  digest : Digest
  selector : Selector
deriving Repr, DecidableEq

namespace Interface

/-- The name of the method or event. -/
def name (i : Interface) : String :=
  i.signature.name

/-- Whether the declaration is that of an event. -/
def isEvent (i : Interface) : Bool :=
  i.kind == .event

/-- The topic under which an event is logged; a method has none. -/
def topic (i : Interface) : Option Digest :=
  if i.isEvent then some i.digest else none

/-- The interface whose normal form and signature are given. -/
def ofSignature (normalized : Normalized) (signature : Signature) : Interface where
  normalized
  signature
  kind := signature.kind
  digest := signature.digest
  selector := signature.digest.selector

end Interface

/-- The interface that a declaration declares. -/
def canonicalize (raw : String) : Except SignatureError Interface := do
  let normalized ← normalize raw
  let types ← normalized.typeList
  return .ofSignature normalized (.assemble normalized.name types)

end AbiSig
