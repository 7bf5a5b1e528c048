import NodeAdmission.Chain.Transaction
/-!
# A view of the chain

What a judge of records knows of the chain: the blocks of the active chain, the transactions that
were confirmed, and those that wait for a block. A view starts empty and changes by a `ChainEvent`
at a time.

Spending is remembered for good. An outpoint that any transaction spent, confirmed or waiting, stays
spent whatever follows; confirming a transaction only moves its inputs from the one list of spent
outpoints to the other.
-/

namespace NodeAdmission

/-! ## What may be asked -/

/-- The two questions that judging a record asks about the chain. -/
structure ChainAccess where
  /-- The transaction that made an output, unless the output is unknown or spent. -/
  lookup : OutPoint → Option Transaction
  /-- The anchor is a block of the active chain, and a recent one if that is asked for too. -/
  checkAnchor : Anchor → Bool → Bool

/-! ## The state -/

/-- How a view answers. -/
structure ViewPolicy where
  /-- How many blocks below the tip an anchor still counts as recent. -/
  staleBlocks : UInt32 := 1440
  /-- Transactions that wait for a block are found too. -/
  allowMempool : Bool := true
deriving DecidableEq

/-- The chain as it is known so far. -/
structure View where
  /-- How the view answers. -/
  policy : ViewPolicy
  /-- The hashes of the active chain's blocks, by height. -/
  blocks : Array Hash := #[]
  /-- The confirmed transactions under their hashes, the latest first. -/
  confirmed : List (Hash × Transaction) := []
  /-- The outpoints that confirmed transactions spend. -/
  spent : List OutPoint := []
  /-- The transactions that wait for a block under their hashes, the latest first. -/
  pending : List (Hash × Transaction) := []
  /-- The outpoints that transactions spent while they waited for a block. -/
  pendingSpent : List OutPoint := []

/-- What changes a view. -/
inductive ChainEvent where
  /-- A block is appended. -/
  | block (hash : Hash)
  /-- The blocks above a height are dropped. -/
  | rewind (height : UInt32)
  /-- A transaction is confirmed. -/
  | confirm (tx : Transaction)
  /-- A transaction starts to wait for a block. -/
  | announce (tx : Transaction)

namespace View

/-- The view that knows nothing. -/
def empty (policy : ViewPolicy) : View := { policy }

/-! ## Changes -/

/-- The view with one more block. -/
def pushBlock (v : View) (hash : Hash) : View := { v with blocks := v.blocks.push hash }

/-- The view without the blocks above a height. -/
def rewindTo (v : View) (height : UInt32) : View :=
  { v with blocks := v.blocks.take (height.toNat + 1) }

/-- The view after a transaction was confirmed: its outputs can be found, its inputs are spent. -/
def confirm (v : View) (tx : Transaction) : View :=
  { v with
    confirmed := (tx.txid, tx) :: v.confirmed
    spent := tx.inputs ++ v.spent
    pending := v.pending.filter fun entry ↦ entry.1 ≠ tx.txid
    pendingSpent := v.pendingSpent.filter fun o ↦ o ∉ tx.inputs }

/-- The view after a transaction started to wait for a block. Its inputs are spent from then on. -/
def announce (v : View) (tx : Transaction) : View :=
  { v with
    pending := (tx.txid, tx) :: v.pending
    pendingSpent := tx.inputs ++ v.pendingSpent }

/-- The view after an event. -/
def apply (v : View) : ChainEvent → View
  | .block hash => v.pushBlock hash
  | .rewind height => v.rewindTo height
  | .confirm tx => v.confirm tx
  | .announce tx => v.announce tx

/-- The view after a history of events that starts with the empty view. -/
def ofHistory (policy : ViewPolicy) (history : List ChainEvent) : View :=
  history.foldl apply (empty policy)

/-! ## Answers -/

/-- The height of the last block. It means something only where there is a block. -/
def tipHeight (v : View) : UInt32 := UInt32.ofNat (v.blocks.size - 1)

/-- The last block. -/
def tip? (v : View) : Option Anchor :=
  v.blocks.back?.map fun hash ↦ { height := v.tipHeight, hash }

/-- The hash of the block at a height. -/
def blockHash? (v : View) (height : UInt32) : Option Hash := v.blocks[height.toNat]?

theorem blockHash?_pushBlock (v : View) (hash : Hash) (height : UInt32) :
    (v.pushBlock hash).blockHash? height =
      if height.toNat = v.blocks.size then some hash else v.blockHash? height := by
  simp only [blockHash?, pushBlock, Array.getElem?_push]

theorem blockHash?_rewindTo (v : View) (target height : UInt32) :
    (v.rewindTo target).blockHash? height =
      if height ≤ target then v.blockHash? height else none := by
  have hblocks : (v.rewindTo target).blocks.toList = v.blocks.toList.take (target.toNat + 1) := by
    simp [rewindTo]
  simp only [blockHash?, ← Array.getElem?_toList, hblocks, List.getElem?_take, Nat.lt_succ_iff,
    UInt32.le_iff_toNat_le]

/-- The outpoint is spent, by a confirmed transaction or by one that waits for a block. -/
def isSpent (v : View) (o : OutPoint) : Bool := o ∈ v.spent || o ∈ v.pendingSpent

theorem isSpent_iff {v : View} {o : OutPoint} :
    v.isSpent o = true ↔ o ∈ v.spent ∨ o ∈ v.pendingSpent := by
  simp [isSpent]

@[simp] theorem isSpent_pushBlock (v : View) (hash : Hash) (o : OutPoint) :
    (v.pushBlock hash).isSpent o = v.isSpent o := rfl

@[simp] theorem isSpent_rewindTo (v : View) (height : UInt32) (o : OutPoint) :
    (v.rewindTo height).isSpent o = v.isSpent o := rfl

/-- What confirming drops from one list of spent outpoints it adds to the other. -/
theorem isSpent_confirm_iff {v : View} {tx : Transaction} {o : OutPoint} :
    (v.confirm tx).isSpent o = true ↔ o ∈ tx.inputs ∨ v.isSpent o = true := by
  rw [isSpent_iff, isSpent_iff]
  simp only [confirm, List.mem_append, List.mem_filter, decide_eq_true_eq]
  by_cases h : o ∈ tx.inputs
  · simp [h]
  · simp [h]

theorem isSpent_announce_iff {v : View} {tx : Transaction} {o : OutPoint} :
    (v.announce tx).isSpent o = true ↔ o ∈ tx.inputs ∨ v.isSpent o = true := by
  rw [isSpent_iff, isSpent_iff]
  simp only [announce, List.mem_append]
  exact or_left_comm

/-- The transaction that made an output that is not spent. A confirmed transaction is preferred to
one that waits for a block. Whether the transaction has an output at the position is not asked. -/
def lookup (v : View) (o : OutPoint) : Option Transaction :=
  if v.isSpent o then none
  else
    (v.confirmed.lookup o.txid).or
      (if v.policy.allowMempool then v.pending.lookup o.txid else none)

/-- The anchor is a block of the active chain, and a recent one if `enforce` is set. -/
def checkAnchor (v : View) (a : Anchor) (enforce : Bool) : Bool :=
  v.blockHash? a.height = some a.hash &&
    (!enforce || v.tipHeight - a.height ≤ v.policy.staleBlocks)

/-- The view as a judge of records asks it. -/
def access (v : View) : ChainAccess := { lookup := v.lookup, checkAnchor := v.checkAnchor }

end View

end NodeAdmission
