import NodeAdmission.Proofs.Record.Commitment
/-!
# Signed bytes of both kinds

What is signed of a registration and what is signed of a ping start with a key, and nothing in them
says of which kind they are. So the same bytes can be both, and a signature over them is good for
both: a ping may spell a registration.

How much a ping must look like a registration is said by `Ping.Spells`. Both byte strings can only
be laid side by side in one way:

```text
registration   key | tier, payment hash, count | outpoints ...            | block
ping           key | block .......................... | config | record ........
```

The head of the registration lies within the block of the ping, since a count has at most nine
bytes; and the block of the registration lies within the record of the ping, since that has more
than its 36 bytes. A registration of less than two outpoints is too short to be spelled.
-/

namespace NodeAdmission

open Wire

/-! ## Lengths -/

@[simp] theorem Anchor.length_encode (a : Anchor) : a.encode.length = 36 := by
  simp [encode, u32, a.hash.length_toList]

theorem Registration.le_length_encode (r : Registration) : 92 ≤ r.encode.length := by
  have hcount := length_compactSize_pos (UInt64.ofNat r.collateral.length)
  have hlength := length_compactSize_pos (UInt64.ofNat r.signature.length)
  simp only [encode, IdentityKey.bytes, u8, list, varBytes, List.length_append,
    Octets.length_toList, List.length_singleton, Anchor.length_encode]
  omega

/-! ## One above the other -/

namespace Registration

/-- What is signed between the key and the outpoints: the tier, where to pay, and the count. -/
def head (r : Registration) : List UInt8 :=
  u8 r.tier.toByte ++ r.paymentKeyHash.toList ++ compactSize (UInt64.ofNat r.collateral.length)

/-- What is signed from the outpoints on. -/
def tail (r : Registration) : List UInt8 :=
  r.collateral.flatMap OutPoint.encode ++ r.anchor.encode

theorem signedBytes_eq_append (r : Registration) :
    r.signedBytes = r.key.octets.toList ++ (r.head ++ r.tail) := by
  simp only [signedBytes, IdentityKey.bytes, list, head, tail, List.append_assoc]

theorem length_head_le (r : Registration) : r.head.length ≤ 30 := by
  have hcount := length_compactSize_le (UInt64.ofNat r.collateral.length)
  simp only [head, u8, List.length_append, List.length_singleton, Octets.length_toList]
  omega

theorem length_tail (r : Registration) : r.tail.length = r.collateral.length * 36 + 36 := by
  simp [tail, OutPoint.encodedSize, List.map_const']

end Registration

/-- The bytes behind the key of a ping are those of a registration: its block starts with the head
of the registration, and the rest of the block, the config and the record are the outpoints and the
block of the registration. -/
structure Ping.Spells (p : Ping) (r : Registration) : Prop where
  key : r.key = p.key
  head : r.head <+: p.anchor.encode
  tail : r.tail = p.anchor.encode.drop r.head.length ++ varText p.config ++ p.record.encode

namespace Ping

variable {p : Ping} {r : Registration}

/-- The bytes are those of both exactly if the ping spells the registration. -/
theorem signedBytes_registration_eq_iff : r.signedBytes = p.signedBytes ↔ p.Spells r := by
  have hping : p.signedBytes =
      p.key.octets.toList ++ (p.anchor.encode ++ (varText p.config ++ p.record.encode)) := by
    simp only [signedBytes, IdentityKey.bytes, List.append_assoc]
  rw [r.signedBytes_eq_append, hping, octets_append_eq_append_iff]
  constructor
  · rintro ⟨hkey, h⟩
    have hhead : r.head <+: p.anchor.encode := by
      refine List.prefix_of_prefix_length_le (List.prefix_append r.head r.tail)
        (h ▸ List.prefix_append _ _) ?_
      exact Nat.le_trans r.length_head_le (by simp)
    obtain ⟨gap, hgap⟩ := hhead
    rw [← hgap, List.append_assoc, List.append_cancel_left_eq] at h
    exact ⟨IdentityKey.ext hkey, ⟨gap, hgap⟩, by simp [← hgap, h]⟩
  · rintro ⟨hkey, ⟨gap, hgap⟩, htail⟩
    rw [← hgap, List.drop_left] at htail
    exact ⟨congrArg IdentityKey.octets hkey, by simp [← hgap, htail]⟩

/-- What is left of the block, an empty config and the least of records do not fit into one
outpoint and a block. -/
theorem Spells.two_le_length_collateral (h : p.Spells r) : 2 ≤ r.collateral.length := by
  have hlength := congrArg List.length h.tail
  have hhead := r.length_head_le
  have hrecord : 92 ≤ p.record.encode.length := p.record.registration.le_length_encode
  have hconfig := length_compactSize_pos (UInt64.ofNat (utf8 p.config).length)
  simp only [r.length_tail, List.length_append, List.length_drop, Anchor.length_encode, varText,
    varBytes] at hlength
  omega

/-- The block of the registration is spelled by the end of the record. -/
theorem Spells.anchor_suffix (h : p.Spells r) : r.anchor.encode <:+ p.record.encode := by
  have hanchor : r.anchor.encode <:+ r.tail := List.suffix_append _ _
  have hrecord : p.record.encode <:+ r.tail := h.tail ▸ List.suffix_append _ _
  refine List.suffix_of_suffix_length_le hanchor hrecord ?_
  have hlength : 92 ≤ p.record.encode.length := p.record.registration.le_length_encode
  rw [Anchor.length_encode]
  exact Nat.le_trans (by decide) hlength

end Ping

/-! ## Shared signatures -/

/-- A ping of a node about a free registration of itself, whose signature is a single byte. -/
def Ping.ofSharedBytes : Ping where
  key := ⟨⟨2 :: List.replicate 32 9, rfl⟩⟩
  anchor := { height := 0, hash := ⟨List.replicate 17 0xa1 ++ 2 :: List.replicate 14 0xb2, rfl⟩ }
  config := ""
  record := .receive 9
    { key := ⟨⟨2 :: List.replicate 32 9, rfl⟩⟩
      tier := .free
      paymentKeyHash := .zero 20
      collateral := []
      anchor := { height := 0, hash := .replicate 32 0xc3 }
      signature := [7] }
  signature := []

/-- A free registration of the same node, which is spelled by that ping. -/
def Registration.ofSharedBytes : Registration where
  key := ⟨⟨2 :: List.replicate 32 9, rfl⟩⟩
  tier := .free
  paymentKeyHash := ⟨List.replicate 3 0 ++ List.replicate 17 0xa1, rfl⟩
  collateral :=
    [{ txid := ⟨List.replicate 14 0xb2 ++ 0 :: 2 :: List.replicate 16 9, rfl⟩
       index := 0x09090909 },
      { txid := ⟨List.replicate 12 9 ++ List.replicate 20 0, rfl⟩, index := 0 }]
  anchor := { height := 0xc3c30000, hash := ⟨List.replicate 30 0xc3 ++ [1, 7], rfl⟩ }
  signature := []

/-- The bytes that are signed do not tell registrations from pings, not even for one key. -/
theorem not_forall_signedBytes_ne :
    Registration.ofSharedBytes.key = Ping.ofSharedBytes.key ∧
      Registration.ofSharedBytes.signedBytes = Ping.ofSharedBytes.signedBytes ∧
      ¬∀ (r : Registration) (p : Ping), r.key = p.key → r.signedBytes ≠ p.signedBytes := by
  have hbytes : Registration.ofSharedBytes.signedBytes = Ping.ofSharedBytes.signedBytes := by
    decide +kernel
  exact ⟨rfl, hbytes, fun h ↦ h _ _ rfl hbytes⟩

/-- **Only a ping that spells a registration shares its signatures.** The signed bytes of a
registration and of a ping are equal exactly if the ping spells the registration, and otherwise what
is hashed of the two differs, so that the hashes are equal only by a collision. A ping spells no
registration of another key, none of less than two outpoints, and none whose block is not spelled by
the end of its record. -/
theorem signedBytes_shared_iff_spells (r : Registration) (p : Ping) :
    (r.signedBytes = p.signedBytes ↔ p.Spells r) ∧
      (r.sigHash = p.sigHash ↔ p.Spells r ∨ Hash.Collision r.signedBytes p.signedBytes) ∧
      (p.Spells r →
        r.key = p.key ∧ 2 ≤ r.collateral.length ∧ r.anchor.encode <:+ p.record.encode) := by
  have hbytes : r.signedBytes = p.signedBytes ↔ p.Spells r := Ping.signedBytes_registration_eq_iff
  refine ⟨hbytes, Hash.sha256d_eq_iff hbytes, ?_⟩
  intro h
  exact ⟨h.key, h.two_le_length_collateral, h.anchor_suffix⟩

/-- Whoever signs the one sample signs the other. -/
theorem signedBytes_shared_iff_spells_sample :
    Ping.ofSharedBytes.Spells Registration.ofSharedBytes ∧
      Registration.ofSharedBytes.sigHash = Ping.ofSharedBytes.sigHash := by
  obtain ⟨-, hhash, -⟩ :=
    signedBytes_shared_iff_spells Registration.ofSharedBytes Ping.ofSharedBytes
  have hspells : Ping.ofSharedBytes.Spells Registration.ofSharedBytes :=
    ⟨rfl, by decide +kernel, by decide +kernel⟩
  exact ⟨hspells, hhash.mpr (.inl hspells)⟩

end NodeAdmission
