import NodeAdmission.Proofs.Record.RoundTrip
import NodeAdmission.Proofs.Wire.Incremental
/-!
# Truncated and extended messages

A message that is accepted is accepted at its own length only. Any shorter beginning of it is
refused as too short, wherever the cut falls: between two fields, within a number or a length, in a
list that now has more items than there is room for, or within a letter. Anything behind it is
refused as left over. A reader in the middle of a stream is not disturbed by what follows.

All readers here are put together from incremental ones, and an incremental reader that takes a
whole message has both properties.
-/

namespace NodeAdmission

open Wire

/-! ## The readers of records -/

theorem OutPoint.incremental_reader : OutPoint.reader.Incremental :=
  (Reader.Incremental.octets 32).bind fun _ ↦ Reader.Incremental.u32.bind fun _ ↦ .pure _

theorem Anchor.incremental_reader : Anchor.reader.Incremental :=
  Reader.Incremental.u32.bind fun _ ↦ (Reader.Incremental.octets 32).bind fun _ ↦ .pure _

theorem Output.incremental_reader : Output.reader.Incremental :=
  Reader.Incremental.u64.bind fun _ ↦ Reader.Incremental.varBytes.bind fun _ ↦ .pure _

theorem Transaction.incremental_reader : Transaction.reader.Incremental := by
  refine Reader.Incremental.u32.bind fun _ ↦ ?_
  refine (OutPoint.incremental_reader.list OutPoint.encodedSize).bind fun _ ↦ ?_
  exact (Output.incremental_reader.list Output.minEncodedSize).bind fun _ ↦ .pure _

theorem Registration.incremental_reader : Registration.reader.Incremental := by
  refine (Reader.Incremental.octets 33).bind fun _ ↦ Reader.Incremental.u8.bind fun _ ↦ ?_
  refine (Reader.Incremental.octets 20).bind fun _ ↦ ?_
  refine (OutPoint.incremental_reader.list OutPoint.encodedSize).bind fun _ ↦ ?_
  refine Anchor.incremental_reader.bind fun _ ↦ ?_
  exact Reader.Incremental.varBytes.bind fun _ ↦ .pure _

theorem NodeRecord.incremental_reader (clock : Time) : (NodeRecord.reader clock).Incremental :=
  Registration.incremental_reader.map _

theorem Ping.incremental_reader (clock : Time) : (Ping.reader clock).Incremental := by
  refine (Reader.Incremental.octets 33).bind fun _ ↦ Anchor.incremental_reader.bind fun _ ↦ ?_
  refine Reader.Incremental.varText.bind fun _ ↦ ?_
  refine (NodeRecord.incremental_reader clock).bind fun _ ↦ ?_
  exact Reader.Incremental.varBytes.bind fun _ ↦ .pure _

/-! ## Messages at another length -/

/-- Whatever is accepted, whatever the clock shows then, is refused as too short when a part of its
end is missing, and refused for the exact number of bytes behind it when there are any, again
whatever the clock shows. -/
def Wire.RefusesOtherLengths {ι α : Type} (accept : ι → List UInt8 → Except DecodeError α) : Prop :=
  ∀ clock clock' bytes a, accept clock bytes = .ok a →
    (∀ front missing, bytes = front ++ missing → missing ≠ [] →
      ∃ e, accept clock' front = .error e ∧ e.IsShort) ∧
    ∀ more, more ≠ [] → accept clock' (bytes ++ more) = .error (.trailingBytes more.length)

/-- A success is repeated, with the same answer and the same number of bytes taken, whatever follows
the input. -/
def Wire.Reader.ReadsOn {α : Type} (r : Reader α) : Prop :=
  ∀ unread a rest, r unread = (.ok a, rest) →
    ∃ taken, unread = taken ++ rest ∧ ∀ more, r (unread ++ more) = (.ok a, rest ++ more)

theorem Wire.Reader.Incremental.readsOn {α : Type} {r : Reader α} (h : r.Incremental) :
    r.ReadsOn := by
  intro unread a rest hread
  obtain ⟨taken, htaken⟩ := h.suffix hread
  exact ⟨taken, htaken.symm, h.extend hread⟩

/-- The clock is noted in the answer and decides nothing. -/
theorem Wire.RefusesOtherLengths.of_incremental {ι α : Type} {r : ι → Reader α}
    (h : ∀ clock, (r clock).Incremental)
    (hclock : ∀ clock clock' unread rest a, r clock unread = (.ok a, rest) →
      ∃ a', r clock' unread = (.ok a', rest)) :
    RefusesOtherLengths fun clock ↦ (r clock).whole := by
  intro clock clock' bytes a ha
  obtain ⟨a', hread⟩ := hclock clock clock' bytes [] a (Reader.whole_eq_ok_iff.mp ha)
  constructor
  · rintro front missing rfl hmissing
    obtain ⟨rest, -, hrest⟩ | ⟨e, rest, he, hshort⟩ := (h clock').cut hread
    · exact absurd (List.append_eq_nil_iff.mp hrest.symm).2 hmissing
    · exact ⟨e, Reader.whole_of_error he, hshort⟩
  · intro more hmore
    exact Reader.whole_of_ok_of_ne_nil ((h clock').extend hread more) hmore

theorem NodeRecord.reader_ok_of_clock {clock clock' : Time} {unread rest : List UInt8}
    {n : NodeRecord} (h : NodeRecord.reader clock unread = (.ok n, rest)) :
    ∃ m, NodeRecord.reader clock' unread = (.ok m, rest) := by
  obtain ⟨r, hread, -⟩ := Reader.map_eq_ok_iff.mp h
  exact ⟨receive clock' r, Reader.map_of_ok hread _⟩

theorem Ping.reader_ok_of_clock {clock clock' : Time} {unread rest : List UInt8} {p : Ping}
    (h : Ping.reader clock unread = (.ok p, rest)) :
    ∃ q, Ping.reader clock' unread = (.ok q, rest) := by
  obtain ⟨⟨hfits, -, -⟩, rfl⟩ := Ping.reader_eq_ok_iff.mp h
  exact ⟨p.readBack clock', Ping.reader_encode hfits rest⟩

/-- A ping is received by a reader that reconciles its answer. -/
theorem Ping.refusesOtherLengths_receive : RefusesOtherLengths Ping.receive := by
  have hreceive : Ping.receive =
      fun clocks : Readings ↦
        ((fun p : Ping ↦ p.reconcile clocks.ping) <$> Ping.reader clocks.record).whole := by
    funext clocks bytes
    rw [Reader.whole_map, receive]
  rw [hreceive]
  refine .of_incremental (fun clocks ↦ (Ping.incremental_reader clocks.record).map _) ?_
  intro clocks clocks' unread rest p h
  obtain ⟨q, hread, -⟩ := Reader.map_eq_ok_iff.mp h
  obtain ⟨q', hread'⟩ := Ping.reader_ok_of_clock hread
  exact ⟨q'.reconcile clocks'.ping, Reader.map_of_ok hread' _⟩

/-- **Truncation and extension are detected, each as what it is.** Of every accepted record, ping
or transaction, each strict beginning is refused as truncated or with a length that exceeds what is
left, never for another reason; and with bytes behind it, it is refused for exactly their number.
Every reader of a field or a record gives the same answer whatever follows. -/
theorem truncation_and_extension_refused :
    (RefusesOtherLengths (fun clock ↦ (NodeRecord.reader clock).whole) ∧
      RefusesOtherLengths Ping.receive ∧
      RefusesOtherLengths fun _ : Time ↦ Transaction.reader.whole) ∧
    (Reader.u8.ReadsOn ∧ Reader.u32.ReadsOn ∧ Reader.u64.ReadsOn ∧ Reader.i64.ReadsOn ∧
      ∀ n, (Reader.octets n).ReadsOn) ∧
    (Reader.compactSize.ReadsOn ∧ Reader.varBytes.ReadsOn ∧ Reader.varText.ReadsOn) ∧
    OutPoint.reader.ReadsOn ∧ Output.reader.ReadsOn ∧ Transaction.reader.ReadsOn ∧
    ∀ clock, (NodeRecord.reader clock).ReadsOn ∧ (Ping.reader clock).ReadsOn := by
  refine ⟨⟨?_, Ping.refusesOtherLengths_receive, ?_⟩, ?_, ?_, ?_⟩
  · exact .of_incremental NodeRecord.incremental_reader
      fun _ _ _ _ _ h ↦ NodeRecord.reader_ok_of_clock h
  · exact .of_incremental (fun _ ↦ Transaction.incremental_reader) fun _ _ _ _ a h ↦ ⟨a, h⟩
  · exact ⟨Reader.Incremental.u8.readsOn, Reader.Incremental.u32.readsOn,
      Reader.Incremental.u64.readsOn, Reader.Incremental.i64.readsOn,
      fun n ↦ (Reader.Incremental.octets n).readsOn⟩
  · exact ⟨Reader.Incremental.compactSize.readsOn, Reader.Incremental.varBytes.readsOn,
      Reader.Incremental.varText.readsOn⟩
  · exact ⟨OutPoint.incremental_reader.readsOn, Output.incremental_reader.readsOn,
      Transaction.incremental_reader.readsOn,
      fun clock ↦ ⟨(NodeRecord.incremental_reader clock).readsOn,
        (Ping.incremental_reader clock).readsOn⟩⟩

/-- An accepted ping, cut within the one letter of its config, and with a byte behind it. -/
theorem truncation_and_extension_refused_letter :
    let bytes := (Ping.ofTierAndConfig .spv "é").encode
    (∃ p, Ping.receive ⟨3, 4⟩ bytes = .ok p) ∧
      (bytes.take 71 = bytes.take 70 ++ (utf8 "é").take 1 ∧
        ∃ e, Ping.receive ⟨5, 6⟩ (bytes.take 71) = .error e ∧ e.IsShort) ∧
      Ping.receive ⟨5, 6⟩ (bytes ++ [7]) = .error (.trailingBytes 1) := by
  intro bytes
  have hfits : (Ping.ofTierAndConfig .spv "é").Fits :=
    ⟨by decide, ⟨by decide, by decide⟩, by decide⟩
  have hreceive := Ping.receive_encode ⟨3, 4⟩ hfits
  obtain ⟨hfront, hmore⟩ :=
    truncation_and_extension_refused.1.2.1 ⟨3, 4⟩ ⟨5, 6⟩ bytes _ hreceive
  have hcut := hfront (bytes.take 71) (bytes.drop 71) (List.take_append_drop 71 bytes).symm
    (by decide +kernel)
  exact ⟨⟨_, hreceive⟩, ⟨by decide +kernel, hcut⟩, hmore [7] (by simp)⟩

end NodeAdmission
