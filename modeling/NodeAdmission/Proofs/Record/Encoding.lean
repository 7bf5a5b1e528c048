import NodeAdmission.Proofs.Wire.Exact
import NodeAdmission.Record.Ping
/-!
# Encodings of records

The readers of outpoints, transactions, registrations and pings accept exactly the encodings of the
values that fit, which are those whose counted fields are no longer than readers accept. The
equivalences of this module put those of the fields together, record by record.

Of a registration a reader never makes a tier that was built as an unrecognised `0` or `50`: such a
tier has the byte of a named one and is read as that. `Registration.normal` is the registration as
it is read.
-/

namespace NodeAdmission

open Wire

variable {unread rest : List UInt8}

/-! ## Outpoints and anchors -/

theorem OutPoint.reader_eq_ok_iff {o : OutPoint} :
    OutPoint.reader unread = (.ok o, rest) ↔ unread = o.encode ++ rest := by
  rw [OutPoint.reader, Reader.bind_eq_ok_iff, OutPoint.encode, List.append_assoc]
  constructor
  · rintro ⟨txid, mid, htxid, hread⟩
    obtain ⟨index, mid', hindex, hpure⟩ := Reader.bind_eq_ok_iff.mp hread
    obtain ⟨rfl, rfl⟩ := Reader.pure_eq_ok_iff.mp hpure
    rw [Reader.octets_eq_ok_iff.mp htxid, Reader.u32_eq_ok_iff.mp hindex]
  · rintro rfl
    refine ⟨o.txid, _, Reader.octets_eq_ok_iff.mpr rfl, ?_⟩
    exact Reader.bind_eq_ok_iff.mpr ⟨o.index, rest, Reader.u32_eq_ok_iff.mpr rfl, rfl⟩

theorem Anchor.reader_eq_ok_iff {a : Anchor} :
    Anchor.reader unread = (.ok a, rest) ↔ unread = a.encode ++ rest := by
  rw [Anchor.reader, Reader.bind_eq_ok_iff, Anchor.encode, List.append_assoc]
  constructor
  · rintro ⟨height, mid, hheight, hread⟩
    obtain ⟨hash, mid', hhash, hpure⟩ := Reader.bind_eq_ok_iff.mp hread
    obtain ⟨rfl, rfl⟩ := Reader.pure_eq_ok_iff.mp hpure
    rw [Reader.u32_eq_ok_iff.mp hheight, Reader.octets_eq_ok_iff.mp hhash]
  · rintro rfl
    refine ⟨a.height, _, Reader.u32_eq_ok_iff.mpr rfl, ?_⟩
    exact Reader.bind_eq_ok_iff.mpr ⟨a.hash, rest, Reader.octets_eq_ok_iff.mpr rfl, rfl⟩

/-! ## Transactions -/

/-- The script is no longer than readers accept. -/
def Output.Fits (out : Output) : Prop := out.script.length ≤ maxLength

theorem Output.minEncodedSize_le_length (out : Output) :
    Output.minEncodedSize ≤ out.encode.length := by
  have hlen := length_compactSize_pos (UInt64.ofNat out.script.length)
  rw [Output.encode, varBytes, u64, List.length_append, List.length_append,
    length_littleEndian, Output.minEncodedSize]
  omega

theorem Output.reader_eq_ok_iff {out : Output} :
    Output.reader unread = (.ok out, rest) ↔ out.Fits ∧ unread = out.encode ++ rest := by
  rw [Output.reader, Reader.bind_eq_ok_iff, Output.encode, List.append_assoc]
  constructor
  · rintro ⟨value, mid, hvalue, hread⟩
    obtain ⟨script, mid', hscript, hpure⟩ := Reader.bind_eq_ok_iff.mp hread
    obtain ⟨rfl, rfl⟩ := Reader.pure_eq_ok_iff.mp hpure
    obtain ⟨hfits, rfl⟩ := Reader.varBytes_eq_ok_iff.mp hscript
    exact ⟨hfits, Reader.u64_eq_ok_iff.mp hvalue⟩
  · rintro ⟨hfits, rfl⟩
    refine ⟨out.value, _, Reader.u64_eq_ok_iff.mpr rfl, ?_⟩
    exact Reader.bind_eq_ok_iff.mpr
      ⟨out.script, rest, Reader.varBytes_eq_ok_iff.mpr ⟨hfits, rfl⟩, rfl⟩

/-- The lists and the scripts of a transaction are no longer than readers accept. -/
structure Transaction.Fits (tx : Transaction) : Prop where
  inputs : tx.inputs.length ≤ maxLength
  outputs : tx.outputs.length ≤ maxLength
  scripts : ∀ out ∈ tx.outputs, out.Fits

/-- The list of outpoints behind its count. -/
theorem outPoints_eq_ok_iff {os : List OutPoint} :
    Reader.list OutPoint.reader OutPoint.encodedSize unread = (.ok os, rest) ↔
      os.length ≤ maxLength ∧ unread = list OutPoint.encode os ++ rest := by
  have hexact : Reader.ReadsExactly OutPoint.reader (fun _ ↦ True) OutPoint.encode := by
    intro unread rest o
    rw [OutPoint.reader_eq_ok_iff, true_and]
  rw [Reader.list_eq_ok_iff hexact (by decide) (by decide)
    fun o ↦ Nat.le_of_eq (OutPoint.length_encode o).symm]
  simp

theorem outputs_eq_ok_iff {outs : List Output} :
    Reader.list Output.reader Output.minEncodedSize unread = (.ok outs, rest) ↔
      (outs.length ≤ maxLength ∧ ∀ out ∈ outs, out.Fits) ∧
        unread = list Output.encode outs ++ rest :=
  Reader.list_eq_ok_iff Output.reader_eq_ok_iff (by decide) (by decide)
    Output.minEncodedSize_le_length

theorem Transaction.reader_eq_ok_iff {tx : Transaction} :
    Transaction.reader unread = (.ok tx, rest) ↔ tx.Fits ∧ unread = tx.encode ++ rest := by
  rw [Transaction.reader, Reader.bind_eq_ok_iff, Transaction.encode, List.append_assoc,
    List.append_assoc]
  constructor
  · rintro ⟨version, mid, hversion, hread⟩
    obtain ⟨inputs, mid, hinputs, hread⟩ := Reader.bind_eq_ok_iff.mp hread
    obtain ⟨outputs, mid, houtputs, hpure⟩ := Reader.bind_eq_ok_iff.mp hread
    obtain ⟨rfl, rfl⟩ := Reader.pure_eq_ok_iff.mp hpure
    obtain ⟨hin, rfl⟩ := outPoints_eq_ok_iff.mp hinputs
    obtain ⟨⟨hout, hscripts⟩, rfl⟩ := outputs_eq_ok_iff.mp houtputs
    exact ⟨⟨hin, hout, hscripts⟩, Reader.u32_eq_ok_iff.mp hversion⟩
  · rintro ⟨⟨hin, hout, hscripts⟩, rfl⟩
    refine ⟨tx.version, _, Reader.u32_eq_ok_iff.mpr rfl, ?_⟩
    refine Reader.bind_eq_ok_iff.mpr ⟨tx.inputs, _, outPoints_eq_ok_iff.mpr ⟨hin, rfl⟩, ?_⟩
    exact Reader.bind_eq_ok_iff.mpr
      ⟨tx.outputs, rest, outputs_eq_ok_iff.mpr ⟨⟨hout, hscripts⟩, rfl⟩, rfl⟩

/-! ## Registrations -/

/-- The tier that is read back: a byte of a named tier names it. -/
def Tier.normal (t : Tier) : Tier := .ofByte t.toByte

@[simp] theorem Tier.toByte_normal (t : Tier) : t.normal.toByte = t.toByte := toByte_ofByte t.toByte

/-- Two tiers are not read back as they were built. -/
theorem Tier.normal_eq_self_iff {t : Tier} :
    t.normal = t ↔ t ≠ .unrecognized 0 ∧ t ≠ .unrecognized 50 := by
  cases t with
  | free => simp [normal, toByte, ofByte]
  | spv => simp [normal, toByte, ofByte]
  | unrecognized b =>
    rw [normal, toByte, ofByte]
    split
    · next h => simp [h]
    · split
      · next h => simp [h]
      · next h h' => simp [h, h']

@[simp] theorem Tier.normal_normal (t : Tier) : t.normal.normal = t.normal := by
  rw [normal, toByte_normal, ← normal]

@[simp] theorem Tier.normal_ofByte (b : UInt8) : (Tier.ofByte b).normal = .ofByte b := by
  rw [normal, toByte_ofByte]

namespace Registration

/-- The list and the signature of a registration are no longer than readers accept. -/
structure Fits (r : Registration) : Prop where
  collateral : r.collateral.length ≤ maxLength
  signature : r.signature.length ≤ maxLength

/-- The registration as it is read back. -/
def normal (r : Registration) : Registration := { r with tier := r.tier.normal }

@[simp] theorem signedBytes_normal (r : Registration) : r.normal.signedBytes = r.signedBytes := by
  simp [signedBytes, normal]

@[simp] theorem encode_normal (r : Registration) : r.normal.encode = r.encode := by
  rw [encode_eq_append, encode_eq_append, signedBytes_normal]
  rfl

theorem Fits.normal {r : Registration} (h : r.Fits) : r.normal.Fits := ⟨h.collateral, h.signature⟩

theorem normal_eq_self_iff {r : Registration} : r.normal = r ↔ r.tier.normal = r.tier := by
  cases r
  simp [normal]

theorem reader_eq_ok_iff {r : Registration} :
    reader unread = (.ok r, rest) ↔
      (r.Fits ∧ r.tier.normal = r.tier) ∧ unread = r.encode ++ rest := by
  simp only [reader, Reader.bind_eq_ok_iff, encode, List.append_assoc]
  constructor
  · rintro ⟨key, _, hkey, tier, _, htier, payment, _, hpayment, collateral, _, hcollateral, anchor,
      _, hanchor, signature, _, hsignature, hpure⟩
    obtain ⟨rfl, rfl⟩ := Reader.pure_eq_ok_iff.mp hpure
    obtain ⟨hcount, rfl⟩ := outPoints_eq_ok_iff.mp hcollateral
    obtain ⟨hlength, rfl⟩ := Reader.varBytes_eq_ok_iff.mp hsignature
    refine ⟨⟨⟨hcount, hlength⟩, Tier.normal_ofByte tier⟩, ?_⟩
    rw [Reader.octets_eq_ok_iff.mp hkey, Reader.u8_eq_ok_iff.mp htier,
      Reader.octets_eq_ok_iff.mp hpayment, Anchor.reader_eq_ok_iff.mp hanchor, Tier.toByte_ofByte]
    rfl
  · rintro ⟨⟨⟨hcount, hlength⟩, htier⟩, rfl⟩
    refine ⟨r.key.octets, _, Reader.octets_eq_ok_iff.mpr rfl, r.tier.toByte, _,
      Reader.u8_eq_ok_iff.mpr rfl, r.paymentKeyHash, _, Reader.octets_eq_ok_iff.mpr rfl,
      r.collateral, _, outPoints_eq_ok_iff.mpr ⟨hcount, rfl⟩, r.anchor, _,
      Anchor.reader_eq_ok_iff.mpr rfl, r.signature, rest,
      Reader.varBytes_eq_ok_iff.mpr ⟨hlength, rfl⟩, Reader.pure_eq_ok_iff.mpr ⟨?_, rfl⟩⟩
    rw [← Tier.normal, htier]

end Registration

/-! ## Records and pings -/

theorem NodeRecord.reader_eq_ok_iff {clock : Time} {n : NodeRecord} :
    NodeRecord.reader clock unread = (.ok n, rest) ↔
      (n.registration.Fits ∧ n.registration.tier.normal = n.registration.tier ∧
        n = .receive clock n.registration) ∧ unread = n.encode ++ rest := by
  rw [NodeRecord.reader, Reader.map_eq_ok_iff, NodeRecord.encode]
  constructor
  · rintro ⟨r, hread, rfl⟩
    obtain ⟨⟨hfits, htier⟩, hunread⟩ := Registration.reader_eq_ok_iff.mp hread
    exact ⟨⟨hfits, htier, rfl⟩, hunread⟩
  · rintro ⟨⟨hfits, htier, hfresh⟩, hunread⟩
    exact ⟨n.registration, Registration.reader_eq_ok_iff.mpr ⟨⟨hfits, htier⟩, hunread⟩,
      hfresh.symm⟩

namespace Ping

/-- The config, the signature and the registration of a ping are no longer than readers accept. -/
structure Fits (p : Ping) : Prop where
  config : (utf8 p.config).length ≤ maxLength
  registration : p.record.registration.Fits
  signature : p.signature.length ≤ maxLength

theorem reader_eq_ok_iff {clock : Time} {p : Ping} :
    reader clock unread = (.ok p, rest) ↔
      (p.Fits ∧ p.record.registration.tier.normal = p.record.registration.tier ∧
        p.record = .receive clock p.record.registration) ∧ unread = p.encode ++ rest := by
  simp only [reader, Reader.bind_eq_ok_iff, encode, List.append_assoc]
  constructor
  · rintro ⟨key, _, hkey, anchor, _, hanchor, config, _, hconfig, record, _, hrecord, signature, _,
      hsignature, hpure⟩
    obtain ⟨rfl, rfl⟩ := Reader.pure_eq_ok_iff.mp hpure
    obtain ⟨htext, rfl⟩ := Reader.varText_eq_ok_iff.mp hconfig
    obtain ⟨⟨hfits, htier, hfresh⟩, rfl⟩ := NodeRecord.reader_eq_ok_iff.mp hrecord
    obtain ⟨hlength, rfl⟩ := Reader.varBytes_eq_ok_iff.mp hsignature
    refine ⟨⟨⟨htext, hfits, hlength⟩, htier, hfresh⟩, ?_⟩
    rw [Reader.octets_eq_ok_iff.mp hkey, Anchor.reader_eq_ok_iff.mp hanchor]
    rfl
  · rintro ⟨⟨⟨htext, hfits, hlength⟩, htier, hfresh⟩, rfl⟩
    exact ⟨p.key.octets, _, Reader.octets_eq_ok_iff.mpr rfl, p.anchor, _,
      Anchor.reader_eq_ok_iff.mpr rfl, p.config, _, Reader.varText_eq_ok_iff.mpr ⟨htext, rfl⟩,
      p.record, _, NodeRecord.reader_eq_ok_iff.mpr ⟨⟨hfits, htier, hfresh⟩, rfl⟩, p.signature, rest,
      Reader.varBytes_eq_ok_iff.mpr ⟨hlength, rfl⟩, rfl⟩

end Ping

end NodeAdmission
