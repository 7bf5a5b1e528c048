import NodeAdmission.Chain.OutPoint
import NodeAdmission.Hash.Digest
/-!
# Transactions

What a collateral check needs of a transaction: the outpoints it spends and the outputs it makes.
-/

namespace NodeAdmission

open Wire

/-- A value in base units. -/
abbrev Amount := UInt64

/-- An output of a transaction. -/
structure Output where
  /-- The value it carries. -/
  value : Amount
  /-- The script that says who may spend it. -/
  script : List UInt8
deriving DecidableEq

namespace Output

/-- The bytes of an output. -/
def encode (o : Output) : List UInt8 := u64 o.value ++ varBytes o.script

/-- The least number of bytes of an output, which is that of one with an empty script. -/
def minEncodedSize : Nat := 9

/-- Reads an output. -/
def reader : Reader Output := do
  let value ← .u64
  let script ← .varBytes
  return { value, script }

end Output

/-- A transaction. -/
structure Transaction where
  /-- The version of its format. -/
  version : UInt32
  /-- The outpoints it spends. -/
  inputs : List OutPoint
  /-- The outputs it makes. -/
  outputs : List Output
deriving DecidableEq

namespace Transaction

/-- The bytes of a transaction. -/
def encode (tx : Transaction) : List UInt8 :=
  u32 tx.version ++ list OutPoint.encode tx.inputs ++ list Output.encode tx.outputs

/-- Reads a transaction. -/
def reader : Reader Transaction := do
  let version ← .u32
  let inputs ← .list OutPoint.reader OutPoint.encodedSize
  let outputs ← .list Output.reader Output.minEncodedSize
  return { version, inputs, outputs }

/-- The hash that names the transaction. -/
def txid (tx : Transaction) : Hash := Hash.sha256d tx.encode

/-- The output at a position. -/
def output? (tx : Transaction) (index : UInt32) : Option Output := tx.outputs[index.toNat]?

end Transaction

end NodeAdmission
