import NodeAdmission.Wire.Counted
/-!
# Outpoints and anchors

An outpoint names an output of a transaction. An anchor is a block of the chain that a record claims
to have seen.
-/

namespace NodeAdmission

open Wire

/-! ## Outpoints -/

/-- The output at a position of a transaction. -/
structure OutPoint where
  /-- The hash of the transaction. -/
  txid : Hash
  /-- The position among its outputs. -/
  index : UInt32
deriving DecidableEq

namespace OutPoint

/-- The outpoint that names no output: a zero hash and the greatest position. -/
def null : OutPoint := { txid := .zero 32, index := 0xffff_ffff }

/-- The outpoint is the null outpoint. -/
def isNull (o : OutPoint) : Bool := o = null

/-- Outpoints are ordered by the bytes of the hash, then by the position. -/
instance : Ord OutPoint := ⟨fun a b ↦ (compare a.txid b.txid).then (compare a.index b.index)⟩

/-- The bytes of an outpoint. -/
def encode (o : OutPoint) : List UInt8 := o.txid.toList ++ u32 o.index

/-- The number of bytes of an outpoint. -/
def encodedSize : Nat := 36

@[simp] theorem length_encode (o : OutPoint) : o.encode.length = encodedSize := by
  simp [encode, u32, encodedSize, o.txid.length_toList]

/-- Reads an outpoint. -/
def reader : Reader OutPoint := do
  let txid ← .octets 32
  let index ← .u32
  return { txid, index }

/-- The outpoint as a reason of rejection shows it. -/
def describe (o : OutPoint) : String :=
  let bytes := ", ".intercalate (o.txid.toList.map fun b ↦ toString b.toNat)
  s!"OutPoint \x7b txid: [{bytes}], n: {o.index.toNat} \x7d"

end OutPoint

/-! ## Anchors -/

/-- A block, by its height and its hash. -/
structure Anchor where
  /-- The height of the block. -/
  height : UInt32
  /-- The hash of the block at that height. -/
  hash : Hash
deriving DecidableEq

namespace Anchor

/-- The bytes of an anchor. -/
def encode (a : Anchor) : List UInt8 := u32 a.height ++ a.hash.toList

/-- Reads an anchor. -/
def reader : Reader Anchor := do
  let height ← .u32
  let hash ← .octets 32
  return { height, hash }

end Anchor

end NodeAdmission
