import NodeAdmission.Chain.View
import NodeAdmission.Json.Document
import NodeAdmission.Stake.Tier
/-!
# Entities and settings in JSON

How outpoints, outputs, transactions, anchors and the two sets of settings are written in JSON and
read back. An entity is an object with a member for each field; byte strings are arrays of numbers.

Reading is lenient in what surrounds the fields: members come in any order, members with other names
are passed over, and in place of the object an array may give the values of the fields in order. It
is strict in the fields: none may occur twice, and none may be missing unless it has a default.
-/

namespace NodeAdmission.Json

variable {α : Type}

/-! ## Numbers, truth values and lists -/

/-- A number below a bound. -/
def below? (bound : Nat) : Json → Option Nat
  | natural n => if n < bound then some n else none
  | _ => none

/-- A number of 8 bits. -/
def u8? (v : Json) : Option UInt8 := (v.below? UInt8.size).map UInt8.ofNat

/-- A number of 32 bits. -/
def u32? (v : Json) : Option UInt32 := (v.below? UInt32.size).map UInt32.ofNat

/-- A number of 64 bits. -/
def u64? (v : Json) : Option UInt64 := (v.below? UInt64.size).map UInt64.ofNat

/-- A truth value. -/
def bool? : Json → Option Bool
  | bool b => some b
  | _ => none

/-- An array of items of one kind. -/
def list? (item? : Json → Option α) : Json → Option (List α)
  | array items => items.mapM item?
  | _ => none

/-- An array of bytes. -/
def bytes? : Json → Option (List UInt8) := list? u8?

/-- An array of `n` bytes. -/
def octets? (n : Nat) (v : Json) : Option (Octets n) := v.bytes? >>= Octets.ofList? n

/-- A byte string as an array of numbers. -/
def ofBytes (bytes : List UInt8) : Json := array (bytes.map fun b ↦ natural b.toNat)

/-! ## Fields -/

/-- The value of the only member with a name, or nothing where there is no such member. A second
member with the name is a failure. -/
def only? (name : String) (members : List (Option (List Char) × Json)) : Option (Option Json) :=
  match members.filter fun m ↦ m.1 = some name.toList with
  | [] => some none
  | [m] => some (some m.2)
  | _ => none

/-- The values of the named fields in order, with nothing for a field that is missing. Member names
must be sequences of characters, also those that name no field. -/
def fields? (names : List String) : Json → Option (List (Option Json))
  | object members =>
    if members.all fun m ↦ m.1.isSome then names.mapM fun name ↦ only? name members else none
  | array items =>
    if items.length ≤ names.length then
      some (items.map some ++ List.replicate (names.length - items.length) none)
    else none
  | _ => none

/-- The value of a field that must be there. -/
def required? (read? : Json → Option α) : Option Json → Option α
  | some v => read? v
  | none => none

/-- The value of a field that has a default. -/
def withDefault? (read? : Json → Option α) (default : α) : Option Json → Option α
  | some v => read? v
  | none => some default

end Json

open Json

/-! ## Entities -/

/-- An outpoint in JSON. -/
def OutPoint.toJson (o : OutPoint) : Json :=
  .object [member "txid" (ofBytes o.txid.toList), member "n" (.natural o.index.toNat)]

/-- Reads an outpoint. -/
def OutPoint.ofJson? (v : Json) : Option OutPoint := do
  match ← v.fields? ["txid", "n"] with
  | [txid, n] => return { txid := ← required? (octets? 32) txid, index := ← required? u32? n }
  | _ => none

/-- An output in JSON. -/
def Output.toJson (o : Output) : Json :=
  .object [member "value" (.natural o.value.toNat), member "script_pubkey" (ofBytes o.script)]

/-- Reads an output. -/
def Output.ofJson? (v : Json) : Option Output := do
  match ← v.fields? ["value", "script_pubkey"] with
  | [value, script] =>
    return { value := ← required? u64? value, script := ← required? bytes? script }
  | _ => none

/-- A transaction in JSON. -/
def Transaction.toJson (tx : Transaction) : Json :=
  .object
    [member "version" (.natural tx.version.toNat),
      member "inputs" (.array (tx.inputs.map OutPoint.toJson)),
      member "vout" (.array (tx.outputs.map Output.toJson))]

/-- Reads a transaction. -/
def Transaction.ofJson? (v : Json) : Option Transaction := do
  match ← v.fields? ["version", "inputs", "vout"] with
  | [version, inputs, outputs] =>
    return {
      version := ← required? u32? version
      inputs := ← required? (list? OutPoint.ofJson?) inputs
      outputs := ← required? (list? Output.ofJson?) outputs }
  | _ => none

/-- An anchor in JSON. -/
def Anchor.toJson (a : Anchor) : Json :=
  .object [member "height" (.natural a.height.toNat), member "hash" (ofBytes a.hash.toList)]

/-- Reads an anchor. -/
def Anchor.ofJson? (v : Json) : Option Anchor := do
  match ← v.fields? ["height", "hash"] with
  | [height, hash] =>
    return { height := ← required? u32? height, hash := ← required? (octets? 32) hash }
  | _ => none

/-! ## Settings -/

/-- Stake parameters in JSON. -/
def StakeParams.toJson (p : StakeParams) : Json :=
  .object
    [member "max_collateral_count" (.natural p.maxCollateralCount.toNat),
      member "spv_collateral" (.natural p.spvCollateral.toNat)]

/-- Reads stake parameters; a missing field has its default. -/
def StakeParams.ofJson? (v : Json) : Option StakeParams := do
  let defaults : StakeParams := {}
  match ← v.fields? ["max_collateral_count", "spv_collateral"] with
  | [count, collateral] =>
    return {
      maxCollateralCount := ← withDefault? u64? defaults.maxCollateralCount count
      spvCollateral := ← withDefault? u64? defaults.spvCollateral collateral }
  | _ => none

/-- A view's policy in JSON. -/
def ViewPolicy.toJson (p : ViewPolicy) : Json :=
  .object
    [member "stale_blocks" (.natural p.staleBlocks.toNat),
      member "allow_mempool" (.bool p.allowMempool)]

/-- Reads a view's policy; a missing field has its default. -/
def ViewPolicy.ofJson? (v : Json) : Option ViewPolicy := do
  let defaults : ViewPolicy := {}
  match ← v.fields? ["stale_blocks", "allow_mempool"] with
  | [staleBlocks, allowMempool] =>
    return {
      staleBlocks := ← withDefault? u32? defaults.staleBlocks staleBlocks
      allowMempool := ← withDefault? bool? defaults.allowMempool allowMempool }
  | _ => none

/-- Reads an entity or settings from JSON text. -/
def Json.decode? {α : Type} (read? : Json → Option α) (text : String) : Option α :=
  parse? text.toList >>= read?

/-- The compact text of a JSON value. -/
def Json.compact (v : Json) : String := String.ofList v.spell

end NodeAdmission
