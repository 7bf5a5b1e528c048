import NodeAdmission.Proofs.Wire.Room
import NodeAdmission.Record.Ping
/-!
# Where reading a registration fails

A registration has two parts whose size it announces itself: its outpoints and its signature. Both
are read only after their length has been accepted, and then they are there. So what is left to
fail is what stands in front of them:

```text
heading                               outpoints      ending                     signature
key, tier, payment key hash, count    count × 36     anchor, signature length   that many bytes
may fail                              never fail     may fail                   never fails
```

Reading a registration fails exactly as reading its heading or, behind the outpoints, its ending
does (`Registration.reader_eq_error_iff`).
-/

namespace NodeAdmission

open Wire

variable {unread rest : List UInt8}

theorem OutPoint.takes_reader : OutPoint.reader.Takes OutPoint.encodedSize :=
  (Reader.Takes.octets 32).bind fun _ ↦ Reader.Takes.u32.bind fun _ ↦ .pure _

namespace Registration

/-! ## Between the parts of announced size -/

/-- What stands in front of the outpoints. -/
structure Heading where
  /-- The key of the node. -/
  key : Octets 33
  /-- The byte of the tier. -/
  tier : UInt8
  /-- Where payments go. -/
  paymentKeyHash : KeyId
  /-- The number of outpoints, which was accepted. -/
  count : Nat

/-- Reads what stands in front of the outpoints. -/
def heading : Reader Heading := do
  let key ← .octets 33
  let tier ← .u8
  let paymentKeyHash ← .octets 20
  let count ← .length OutPoint.encodedSize
  return { key, tier, paymentKeyHash, count }

/-- What stands between the outpoints and the bytes of the signature. -/
structure Ending where
  /-- The block that the node had seen. -/
  anchor : Anchor
  /-- The number of bytes of the signature, which was accepted. -/
  signatureLength : Nat

/-- Reads what stands between the outpoints and the bytes of the signature. -/
def ending : Reader Ending := do
  let anchor ← Anchor.reader
  let signatureLength ← .length 1
  return { anchor, signatureLength }

theorem reader_eq_bind : reader =
    (heading >>= fun h ↦ Reader.items OutPoint.reader h.count [] >>= fun collateral ↦
      ending >>= fun e ↦ Reader.octets e.signatureLength >>= fun signature ↦
        pure
          { key := ⟨h.key⟩, tier := .ofByte h.tier, paymentKeyHash := h.paymentKeyHash, collateral,
            anchor := e.anchor, signature := signature.toList }) := by
  simp only [reader, heading, ending, Reader.list, Reader.varBytes, bind_assoc, pure_bind]

theorem count_mul_le_of_heading {h : Heading} (hread : heading unread = (.ok h, rest)) :
    h.count * OutPoint.encodedSize ≤ rest.length := by
  simp only [heading, Reader.bind_eq_ok_iff] at hread
  obtain ⟨key, _, -, tier, _, -, payment, _, -, count, _, hcount, hpure⟩ := hread
  obtain ⟨rfl, rfl⟩ := Reader.pure_eq_ok_iff.mp hpure
  exact ((Reader.length_eq_ok_iff (by decide)).mp hcount).1.2

theorem signatureLength_le_of_ending {e : Ending} (hread : ending unread = (.ok e, rest)) :
    e.signatureLength ≤ rest.length := by
  simp only [ending, Reader.bind_eq_ok_iff] at hread
  obtain ⟨anchor, _, -, length, _, hlength, hpure⟩ := hread
  obtain ⟨rfl, rfl⟩ := Reader.pure_eq_ok_iff.mp hpure
  simpa using ((Reader.length_eq_ok_iff (by decide)).mp hlength).1.2

/-- What is left to fail, with the outpoints and the signature out of the way. -/
theorem reader_eq_error_iff {e : DecodeError} :
    reader unread = (.error e, rest) ↔
      heading unread = (.error e, rest) ∨
        ∃ h behind, heading unread = (.ok h, behind) ∧
          ending (behind.drop (h.count * OutPoint.encodedSize)) = (.error e, rest) := by
  rw [reader_eq_bind, Reader.bind_eq_error_iff]
  refine or_congr_right (exists_congr fun h ↦ exists_congr fun behind ↦ ?_)
  refine and_congr_right fun hheading ↦ ?_
  obtain ⟨os, -, -, hos⟩ :=
    Reader.exists_items_of_takes OutPoint.takes_reader (count_mul_le_of_heading hheading) []
  rw [Reader.bind_of_ok hos, Reader.bind_eq_error_iff]
  refine or_iff_left ?_
  rintro ⟨c, mid, hending, herror⟩
  obtain ⟨signature, hsignature⟩ :=
    Reader.Takes.octets c.signatureLength mid (signatureLength_le_of_ending hending)
  rw [Reader.bind_of_ok hsignature] at herror
  cases herror

end Registration

/-- **What an accepted length announces is there.** A length is accepted exactly if it is in its
form, is at most `maxLength`, and so many items of the least size, of one byte at least, fit into
the bytes unread behind it by their exact product. This needs that the input's length is itself a
number of 64 bits, as it always is. Room for a list is set aside for an accepted number of items,
so never for more than the unread bytes can hold. Behind an accepted length the bytes of a byte
string are there, and each outpoint of a list is read where the one before it ended. A record fails
exactly as its heading or, behind the outpoints, its ending does: never in an outpoint, and never in
the bytes of its signature. -/
theorem accepted_length_honoured :
    (∀ unread : List UInt8, unread.length < UInt64.size → ∀ minItemSize n rest,
      (Reader.length minItemSize unread = (.ok n, rest) ↔
        Reader.compactSize unread = (.ok (UInt64.ofNat n), rest) ∧ n ≤ maxLength ∧
          n * max minItemSize 1 ≤ rest.length)) ∧
    (∀ unread : List UInt8, unread.length < UInt64.size →
      ∀ (α : Type) (item : Reader α) minItemSize,
        (Reader.listInRoom item minItemSize unread).2 = Reader.list item minItemSize unread ∧
        ∀ room, (Reader.listInRoom item minItemSize unread).1 = some room →
          ∃ behind, Reader.length minItemSize unread = (.ok room, behind) ∧
            room * max minItemSize 1 ≤ behind.length ∧
            ∀ as rest, Reader.list item minItemSize unread = (.ok as, rest) → as.length = room) ∧
    (∀ unread n rest, Reader.length 1 unread = (.ok n, rest) →
      ∃ bytes : Octets n, Reader.octets n rest = (.ok bytes, rest.drop n) ∧
        Reader.varBytes unread = (.ok bytes.toList, rest.drop n)) ∧
    (∀ unread n rest, Reader.length OutPoint.encodedSize unread = (.ok n, rest) →
      ∃ os : List OutPoint, os.length = n ∧
        (∀ i (hi : i < os.length), OutPoint.reader (rest.drop (i * OutPoint.encodedSize)) =
          (.ok os[i], rest.drop ((i + 1) * OutPoint.encodedSize))) ∧
        Reader.list OutPoint.reader OutPoint.encodedSize unread =
          (.ok os, rest.drop (n * OutPoint.encodedSize))) ∧
    ∀ clock unread e rest, NodeRecord.reader clock unread = (.error e, rest) ↔
      Registration.heading unread = (.error e, rest) ∨
        ∃ h behind, Registration.heading unread = (.ok h, behind) ∧
          Registration.ending (behind.drop (h.count * OutPoint.encodedSize)) =
            (.error e, rest) := by
  refine ⟨?_, ?_, ?_, ?_, ?_⟩
  · exact fun unread hsize minItemSize n rest ↦ Reader.length_eq_ok_iff_compactSize hsize
  · intro unread hsize α item minItemSize
    refine ⟨Reader.listInRoom_snd item minItemSize unread, fun room hroom ↦ ?_⟩
    obtain ⟨behind, hlength⟩ := Reader.listInRoom_fst_eq_some_iff.mp hroom
    obtain ⟨-, -, hfits⟩ := (Reader.length_eq_ok_iff_compactSize hsize).mp hlength
    exact ⟨behind, hlength, hfits, fun as rest ↦ Reader.length_of_list hlength⟩
  · exact fun unread n rest ↦ Reader.varBytes_of_length
  · exact fun unread n rest ↦
      Reader.list_of_length OutPoint.takes_reader (by decide) (by decide)
  · intro clock unread e rest
    rw [NodeRecord.reader, Reader.map_eq_error_iff, Registration.reader_eq_error_iff]

/-- Two outpoints, and three bytes of a height that has four: reading fails at the height and not
before. The same bytes do not hold two items of `2 ^ 63` bytes each, whose product would be zero if
it wrapped. -/
theorem accepted_length_honoured_cut_height :
    let behind : List UInt8 := List.replicate 72 0 ++ [7, 7, 7]
    let counted : List UInt8 := 2 :: behind
    (Reader.length OutPoint.encodedSize counted = (.ok 2, behind) ∧
      ∀ n rest, Reader.length 0x8000_0000_0000_0000 counted ≠ (.ok n, rest)) ∧
    2 * OutPoint.encodedSize ≤ behind.length ∧
    (∃ bytes : Octets 2, Reader.varBytes counted = (.ok bytes.toList, behind.drop 2)) ∧
    (∃ os, os.length = 2 ∧
      Reader.list OutPoint.reader OutPoint.encodedSize counted = (.ok os, [7, 7, 7])) ∧
    NodeRecord.reader 0 (List.replicate 54 0 ++ counted) =
      (.error (.truncated 4 3), [7, 7, 7]) := by
  intro behind counted
  obtain ⟨haccept, hroom, hbytes, houtpoints, hfail⟩ := accepted_length_honoured
  have hsize : counted.length < UInt64.size := by decide
  have hcount : Reader.compactSize counted = (.ok 2, behind) := Reader.compactSize_append 2 behind
  have hlength : ∀ minItemSize, 2 * max minItemSize 1 ≤ behind.length →
      Reader.length minItemSize counted = (.ok 2, behind) := fun minItemSize hfits ↦
    (haccept counted hsize minItemSize 2 behind).mpr ⟨hcount, by decide, hfits⟩
  have hcounted := hlength OutPoint.encodedSize (by decide)
  refine ⟨⟨hcounted, fun n rest h ↦ ?_⟩, ?_, ?_, ?_, ?_⟩
  · obtain ⟨hread, -, hfits⟩ := (haccept counted hsize _ n rest).mp h
    obtain ⟨hn, rfl⟩ := Prod.mk.inj (hcount.symm.trans hread)
    have hlength : behind.length = 75 := by decide
    rw [Nat.max_eq_left (by decide), hlength] at hfits
    obtain rfl : n = 0 := by omega
    exact absurd (Except.ok.inj hn) (by decide)
  · obtain ⟨behind', hlength', hfits, -⟩ := (hroom counted hsize OutPoint OutPoint.reader _).2 2
      (Reader.listInRoom_fst_eq_some_iff.mpr ⟨behind, hcounted⟩)
    cases hcounted.symm.trans hlength'
    exact hfits
  · obtain ⟨bytes, -, hread⟩ := hbytes counted 2 behind (hlength 1 (by decide))
    exact ⟨bytes, hread⟩
  · obtain ⟨os, hos, -, hread⟩ := houtpoints counted 2 behind hcounted
    exact ⟨os, hos, hread⟩
  · refine (hfail _ _ _ _).mpr (.inr ⟨⟨.zero 33, 0, .zero 20, 2⟩, behind, ?_, ?_⟩)
    · cbv
    · cbv

end NodeAdmission
