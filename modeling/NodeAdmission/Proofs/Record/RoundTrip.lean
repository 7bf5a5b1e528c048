import NodeAdmission.Proofs.Record.Encoding
/-!
# Encodings are canonical

Reading undoes encoding, at any place in a stream (`reader_encode_append`), and encoding undoes
reading, so that no value has two encodings (`readers_canonical`). Together they make the bytes of a
record as good as the record: a hash of the bytes identifies what travels.

What a receiver notes does not travel. A record is read with nothing noted but the clock, and two
messages that agree in what travels are the same message whenever they are read.
-/

namespace NodeAdmission

open Wire

/-! ## Reading what was encoded -/

/-- A record as it is read from the encoding of a registration: all fields of the registration, the
tier under the name its byte has, and nothing noted of a ping. -/
structure NodeRecord.ReadFrom (n : NodeRecord) (sent : Registration) : Prop where
  key : n.registration.key = sent.key
  tier : n.registration.tier = .ofByte sent.tier.toByte
  tier_eq_iff : n.registration.tier = sent.tier ↔
    sent.tier ≠ .unrecognized 0 ∧ sent.tier ≠ .unrecognized 50
  paymentKeyHash : n.registration.paymentKeyHash = sent.paymentKeyHash
  collateral : n.registration.collateral = sent.collateral
  anchor : n.registration.anchor = sent.anchor
  signature : n.registration.signature = sent.signature
  lastSeen : n.lastSeen = n.registration.anchor
  pingTime : n.pingTime = 0
  config : n.config = ""
  capabilities : n.capabilities = { protocol := 0, services := [] }

theorem NodeRecord.readFrom_receive (clock : Time) (r : Registration) :
    (receive clock r.normal).ReadFrom r where
  key := rfl
  tier := rfl
  tier_eq_iff := Tier.normal_eq_self_iff
  paymentKeyHash := rfl
  collateral := rfl
  anchor := rfl
  signature := rfl
  lastSeen := rfl
  pingTime := rfl
  config := rfl
  capabilities := rfl

theorem NodeRecord.reader_encode {clock : Time} {n : NodeRecord} (h : n.registration.Fits)
    (rest : List UInt8) :
    reader clock (n.encode ++ rest) = (.ok (receive clock n.registration.normal), rest) := by
  have hbytes : n.encode = (receive clock n.registration.normal).encode :=
    n.registration.encode_normal.symm
  rw [hbytes]
  exact reader_eq_ok_iff.mpr ⟨⟨h.normal, Tier.normal_normal _, rfl⟩, rfl⟩

namespace Ping

/-- The ping as it is read back: its record is a fresh one. -/
def readBack (clock : Time) (p : Ping) : Ping :=
  { p with record := .receive clock p.record.registration.normal }

theorem signedBytes_readBack (clock : Time) (p : Ping) :
    (p.readBack clock).signedBytes = p.signedBytes := by
  have hrecord : (NodeRecord.receive clock p.record.registration.normal).encode =
      p.record.encode := p.record.registration.encode_normal
  rw [signedBytes, signedBytes, readBack, hrecord]

theorem reader_encode {clock : Time} {p : Ping} (h : p.Fits) (rest : List UInt8) :
    reader clock (p.encode ++ rest) = (.ok (p.readBack clock), rest) := by
  have hbytes : p.encode = (p.readBack clock).encode := by
    rw [encode_eq_append, encode_eq_append, signedBytes_readBack]
    rfl
  rw [hbytes]
  refine reader_eq_ok_iff.mpr ⟨⟨⟨h.config, h.registration.normal, h.signature⟩, ?_, rfl⟩, rfl⟩
  exact Tier.normal_normal _

end Ping

theorem Wire.Reader.whole_of_append {α : Type} {r : Reader α} {bytes : List UInt8} {a : α}
    (h : r (bytes ++ []) = (.ok a, [])) : r.whole bytes = .ok a :=
  whole_eq_ok_iff.mpr (List.append_nil bytes ▸ h)

/-- **Reading undoes encoding, in front of anything.** A reader takes exactly the encoding of a
value that fits and leaves what follows, and its answer agrees with the value in all that travels.
So a message that is nothing but an encoding is accepted, and the hashes of what was read are those
of what was sent. -/
theorem reader_encode_append (clock : Time) (rest : List UInt8) :
    (∀ o : OutPoint, OutPoint.reader (o.encode ++ rest) = (.ok o, rest) ∧
      OutPoint.reader.whole o.encode = .ok o) ∧
    (∀ tx : Transaction, tx.Fits → Transaction.reader (tx.encode ++ rest) = (.ok tx, rest) ∧
      Transaction.reader.whole tx.encode = .ok tx ∧
      (Transaction.reader.whole tx.encode).map Transaction.txid = .ok tx.txid) ∧
    (∀ n : NodeRecord, n.registration.Fits → ∃ m : NodeRecord,
      NodeRecord.reader clock (n.encode ++ rest) = (.ok m, rest) ∧
      (NodeRecord.reader clock).whole n.encode = .ok m ∧ m.ReadFrom n.registration ∧
      m.registration.sigHash = n.registration.sigHash) ∧
    (∀ p : Ping, p.Fits → ∃ q : Ping, Ping.reader clock (p.encode ++ rest) = (.ok q, rest) ∧
      (Ping.reader clock).whole p.encode = .ok q ∧
      (q.key = p.key ∧ q.anchor = p.anchor ∧ q.config = p.config ∧ q.signature = p.signature) ∧
      q.record.ReadFrom p.record.registration ∧ q.sigHash = p.sigHash) := by
  refine ⟨fun o ↦ ?_, fun tx h ↦ ?_, fun n h ↦ ?_, fun p h ↦ ?_⟩
  · have hread : ∀ rest, OutPoint.reader (o.encode ++ rest) = (.ok o, rest) :=
      fun _ ↦ OutPoint.reader_eq_ok_iff.mpr rfl
    exact ⟨hread rest, Reader.whole_of_append (hread [])⟩
  · have hread : ∀ rest, Transaction.reader (tx.encode ++ rest) = (.ok tx, rest) :=
      fun _ ↦ Transaction.reader_eq_ok_iff.mpr ⟨h, rfl⟩
    have hwhole := Reader.whole_of_append (hread [])
    exact ⟨hread rest, hwhole, by rw [hwhole]; rfl⟩
  · refine ⟨.receive clock n.registration.normal, NodeRecord.reader_encode h rest,
      Reader.whole_of_append (NodeRecord.reader_encode h []),
      NodeRecord.readFrom_receive clock n.registration, ?_⟩
    exact congrArg Hash.sha256d n.registration.signedBytes_normal
  · refine ⟨p.readBack clock, Ping.reader_encode h rest,
      Reader.whole_of_append (Ping.reader_encode h []), ⟨rfl, rfl, rfl, rfl⟩,
      NodeRecord.readFrom_receive clock p.record.registration, ?_⟩
    exact congrArg Hash.sha256d (Ping.signedBytes_readBack clock p)

/-- A ping whose record lists two outpoints, at a tier and with a config. -/
def Ping.ofTierAndConfig (tier : Tier) (config : String) : Ping where
  key := .null
  anchor := { height := 20, hash := .zero 32 }
  config := config
  record := .receive 9
    { key := .null
      tier := tier
      paymentKeyHash := .zero 20
      collateral := [.null, { txid := .zero 32, index := 300 }]
      anchor := { height := 10, hash := .zero 32 }
      signature := [27, 1] }
  signature := []

/-- Built as an unrecognised `50`, the tier is read as the staked one, and no hash changes. -/
theorem reader_encode_append_unrecognized :
    (Ping.ofTierAndConfig (.unrecognized 50) "50,BTC").Fits ∧
      ∃ q : Ping, Ping.reader 3 ((Ping.ofTierAndConfig (.unrecognized 50) "50,BTC").encode ++ [7]) =
          (.ok q, [7]) ∧
        q.record.registration.tier = .spv ∧
        q.sigHash = (Ping.ofTierAndConfig (.unrecognized 50) "50,BTC").sigHash := by
  have hfits : (Ping.ofTierAndConfig (.unrecognized 50) "50,BTC").Fits :=
    ⟨by decide, ⟨by decide, by decide⟩, by decide⟩
  obtain ⟨q, hread, -, -, hrecord, hhash⟩ := (reader_encode_append 3 [7]).2.2.2 _ hfits
  exact ⟨hfits, q, hread, hrecord.tier, hhash⟩

/-! ## Encoding what was read -/

/-- The reader takes the encoding of its answer and nothing else. -/
def Wire.Reader.Canonical {α : Type} (r : Reader α) (encode : α → List UInt8) : Prop :=
  ∀ bytes a rest, r bytes = (.ok a, rest) → bytes = encode a ++ rest

/-- Every accepted message is the encoding of its answer, and two messages whose answers have the
same `fields` are one message, whatever the clock shows when the two are read. -/
def Wire.Unambiguous {ι α β : Type} (accept : ι → List UInt8 → Except DecodeError α)
    (encode : α → List UInt8) (fields : α → β) : Prop :=
  (∀ clock bytes a, accept clock bytes = .ok a → encode a = bytes) ∧
    ∀ clock clock' bytes bytes' a a', accept clock bytes = .ok a →
      accept clock' bytes' = .ok a' → bytes ≠ bytes' → fields a ≠ fields a'

theorem Wire.Unambiguous.of_encode {ι α β : Type}
    {accept : ι → List UInt8 → Except DecodeError α} {encode : α → List UInt8}
    {fields : α → β} (hencode : ∀ clock bytes a, accept clock bytes = .ok a → encode a = bytes)
    (hfields : ∀ a a', fields a = fields a' → encode a = encode a') :
    Unambiguous accept encode fields := by
  refine ⟨hencode, fun clock clock' bytes bytes' a a' ha ha' hne heq ↦ hne ?_⟩
  rw [← hencode clock bytes a ha, ← hencode clock' bytes' a' ha']
  exact hfields a a' heq

theorem Wire.Reader.Canonical.encode_of_whole {α : Type} {r : Reader α} {encode : α → List UInt8}
    (h : r.Canonical encode) {bytes : List UInt8} {a : α} (ha : r.whole bytes = .ok a) :
    encode a = bytes := by
  have hbytes := h bytes a [] (whole_eq_ok_iff.mp ha)
  rw [hbytes, List.append_nil]

/-- What of a ping travels. -/
def Ping.fields (p : Ping) : IdentityKey × Anchor × String × Registration × List UInt8 :=
  (p.key, p.anchor, p.config, p.record.registration, p.signature)

@[simp] theorem Ping.fields_reconcile (p : Ping) (clock : Time) :
    (p.reconcile clock).fields = p.fields := rfl

theorem Ping.signedBytes_eq_of_fields {p q : Ping} (h : p.fields = q.fields) :
    p.signedBytes = q.signedBytes := by
  obtain ⟨hkey, hanchor, hconfig, hregistration, -⟩ : p.key = q.key ∧ p.anchor = q.anchor ∧
      p.config = q.config ∧ p.record.registration = q.record.registration ∧
      p.signature = q.signature := by simpa [fields] using h
  simp only [signedBytes, NodeRecord.encode, hkey, hanchor, hconfig, hregistration]

theorem Ping.encode_eq_of_fields {p q : Ping} (h : p.fields = q.fields) : p.encode = q.encode := by
  have hsignature : p.signature = q.signature := congrArg (fun travels ↦ travels.2.2.2.2) h
  rw [encode_eq_append, encode_eq_append, signedBytes_eq_of_fields h, hsignature]

theorem OutPoint.canonical_reader : OutPoint.reader.Canonical OutPoint.encode :=
  fun _ _ _ h ↦ OutPoint.reader_eq_ok_iff.mp h

theorem Transaction.canonical_reader : Transaction.reader.Canonical Transaction.encode :=
  fun _ _ _ h ↦ (Transaction.reader_eq_ok_iff.mp h).2

theorem NodeRecord.canonical_reader (clock : Time) :
    (NodeRecord.reader clock).Canonical NodeRecord.encode :=
  fun _ _ _ h ↦ (NodeRecord.reader_eq_ok_iff.mp h).2

theorem Ping.canonical_reader (clock : Time) : (Ping.reader clock).Canonical Ping.encode :=
  fun _ _ _ h ↦ (Ping.reader_eq_ok_iff.mp h).2

theorem Ping.receive_eq_ok_iff {clocks : Readings} {bytes : List UInt8} {p : Ping} :
    Ping.receive clocks bytes = .ok p ↔
      ∃ q, (Ping.reader clocks.record).whole bytes = .ok q ∧ p = q.reconcile clocks.ping := by
  rw [Ping.receive]
  cases (Ping.reader clocks.record).whole bytes with
  | error e => simp [Functor.map, Except.map]
  | ok q => simp [Functor.map, Except.map, eq_comm]

/-- Reconciling changes nothing of what travels. -/
theorem Ping.encode_of_receive {clocks : Readings} {bytes : List UInt8} {p : Ping}
    (h : Ping.receive clocks bytes = .ok p) : p.encode = bytes := by
  obtain ⟨q, hread, rfl⟩ := Ping.receive_eq_ok_iff.mp h
  have hencode : q.encode = bytes := (Ping.canonical_reader clocks.record).encode_of_whole hread
  exact hencode

/-- **Encoding undoes reading.** Whatever a reader accepts is the encoding of its answer, so no two
messages agree in all that travels, reconciled or not; and no reader makes the two tiers that would
be read back as another. -/
theorem readers_canonical :
    (OutPoint.reader.Canonical OutPoint.encode ∧ Transaction.reader.Canonical Transaction.encode ∧
      (∀ clock, (NodeRecord.reader clock).Canonical NodeRecord.encode) ∧
      ∀ clock, (Ping.reader clock).Canonical Ping.encode) ∧
    (Unambiguous (fun _ : Time ↦ OutPoint.reader.whole) OutPoint.encode id ∧
      Unambiguous (fun _ : Time ↦ Transaction.reader.whole) Transaction.encode id ∧
      Unambiguous (fun clock ↦ (NodeRecord.reader clock).whole) NodeRecord.encode
        NodeRecord.registration ∧
      Unambiguous (fun clock ↦ (Ping.reader clock).whole) Ping.encode Ping.fields ∧
      Unambiguous Ping.receive Ping.encode Ping.fields) ∧
    (∀ clock bytes rest n, NodeRecord.reader clock bytes = (.ok n, rest) →
      n.registration.tier ≠ .unrecognized 0 ∧ n.registration.tier ≠ .unrecognized 50) ∧
    ∀ clock bytes rest p, Ping.reader clock bytes = (.ok p, rest) →
      p.record.registration.tier ≠ .unrecognized 0 ∧
        p.record.registration.tier ≠ .unrecognized 50 := by
  refine ⟨⟨OutPoint.canonical_reader, Transaction.canonical_reader, NodeRecord.canonical_reader,
    Ping.canonical_reader⟩, ⟨?_, ?_, ?_, ?_, ?_⟩, ?_, ?_⟩
  · exact .of_encode (fun _ _ _ h ↦ OutPoint.canonical_reader.encode_of_whole h)
      fun _ _ h ↦ congrArg OutPoint.encode h
  · exact .of_encode (fun _ _ _ h ↦ Transaction.canonical_reader.encode_of_whole h)
      fun _ _ h ↦ congrArg Transaction.encode h
  · exact .of_encode (fun clock _ _ h ↦ (NodeRecord.canonical_reader clock).encode_of_whole h)
      fun _ _ h ↦ congrArg Registration.encode h
  · exact .of_encode (fun clock _ _ h ↦ (Ping.canonical_reader clock).encode_of_whole h)
      fun _ _ h ↦ Ping.encode_eq_of_fields h
  · exact .of_encode (fun _ _ _ h ↦ Ping.encode_of_receive h)
      fun _ _ h ↦ Ping.encode_eq_of_fields h
  · intro clock bytes rest n h
    exact Tier.normal_eq_self_iff.mp (NodeRecord.reader_eq_ok_iff.mp h).1.2.1
  · intro clock bytes rest p h
    exact Tier.normal_eq_self_iff.mp (Ping.reader_eq_ok_iff.mp h).1.2.1

theorem Ping.receive_encode (clocks : Readings) {p : Ping} (h : p.Fits) :
    Ping.receive clocks p.encode = .ok ((p.readBack clocks.record).reconcile clocks.ping) := by
  rw [receive, Wire.Reader.whole_of_append (reader_encode h [])]
  rfl

/-- Two received pings, told apart by a single letter of their configs. -/
theorem readers_canonical_configs :
    Ping.receive ⟨3, 4⟩ (Ping.ofTierAndConfig .spv "50,BTC").encode =
        .ok (((Ping.ofTierAndConfig .spv "50,BTC").readBack 3).reconcile 4) ∧
      Ping.receive ⟨5, 6⟩ (Ping.ofTierAndConfig .spv "50,BTX").encode =
        .ok (((Ping.ofTierAndConfig .spv "50,BTX").readBack 5).reconcile 6) ∧
      (((Ping.ofTierAndConfig .spv "50,BTC").readBack 3).reconcile 4).fields ≠
        (((Ping.ofTierAndConfig .spv "50,BTX").readBack 5).reconcile 6).fields := by
  have hfits : (Ping.ofTierAndConfig .spv "50,BTC").Fits ∧
      (Ping.ofTierAndConfig .spv "50,BTX").Fits :=
    ⟨⟨by decide, ⟨by decide, by decide⟩, by decide⟩,
      ⟨by decide, ⟨by decide, by decide⟩, by decide⟩⟩
  have hfirst := Ping.receive_encode ⟨3, 4⟩ hfits.1
  have hsecond := Ping.receive_encode ⟨5, 6⟩ hfits.2
  obtain ⟨-, -, -, -, -, hdistinct⟩ := readers_canonical.2.1
  exact ⟨hfirst, hsecond, hdistinct _ _ _ _ _ _ hfirst hsecond (by decide +kernel)⟩

end NodeAdmission
