import NodeAdmission.Proofs.Admission.Relay
/-!
# Peers agree on pings

Peers read the same bytes at different times, and each of them stamps what it reads. The stamps are
all that `received_alike` leaves different between two of them: whether the bytes are a ping, why
not if they are none, the hashes that peers compare, the verdict, and the questions that led to it
are the same for all.

Two facts carry this. Receiving at some readings of the clock is reading at any other one and
stamping anew (`Ping.receive_eq_map`). And judging does not look at the stamps (`Ping.judge_congr`).
-/

namespace NodeAdmission

open Wire

namespace Ping

variable {p q : Ping}

/-! ## Reading at another clock -/

/-- The ping as it is read at another reading of the clock. -/
def readAt (clock : Time) (p : Ping) : Ping :=
  { p with record := .receive clock p.record.registration }

/-- The ping as it is received at other readings of the clock. -/
def receivedAt (clocks : Readings) (p : Ping) : Ping :=
  (p.readAt clocks.record).reconcile clocks.ping

theorem fields_receivedAt (p : Ping) (clocks : Readings) :
    (p.receivedAt clocks).fields = p.fields := rfl

theorem lastSeen_receivedAt (p : Ping) (clocks : Readings) :
    (p.receivedAt clocks).record.lastSeen = p.anchor := rfl

theorem reader_eq_map (clock clock' : Time) : reader clock' = readAt clock' <$> reader clock := by
  simp only [reader, NodeRecord.reader, map_bind, bind_map_left, map_pure]
  rfl

theorem receive_eq_map (clock : Time) (clocks : Readings) (bytes : List UInt8) :
    receive clocks bytes = receivedAt clocks <$> (reader clock).whole bytes := by
  rw [receive, reader_eq_map clock clocks.record, Reader.whole_map]
  cases (reader clock).whole bytes <;> rfl

/-- The one reading is noted as the time of the registration, the other one as that of the ping. -/
theorem times_of_receive {clocks : Readings} {bytes : List UInt8}
    (h : receive clocks bytes = .ok p) :
    p.record.regTime = clocks.record.noted ∧ p.record.pingTime = clocks.ping.noted := by
  obtain ⟨q, hread, rfl⟩ := receive_eq_ok_iff.mp h
  obtain ⟨⟨-, -, hfresh⟩, -⟩ := reader_eq_ok_iff.mp (Reader.whole_eq_ok_iff.mp hread)
  exact ⟨congrArg NodeRecord.regTime hfresh, rfl⟩

/-! ## Judging at another clock -/

/-- Of what is noted in its record, only the last block seen has a part in judging a ping. -/
theorem judge_congr (h : p.fields = q.fields) (hseen : p.record.lastSeen = q.record.lastSeen)
    (chain : ChainAccess) (params : StakeParams) : p.judge chain params = q.judge chain params := by
  have hregistration : p.record.registration = q.record.registration :=
    congrArg (fun travels ↦ travels.2.2.2.1) h
  have hrecord : p.record.judge chain params false = q.record.judge chain params false := by
    simp only [NodeRecord.judge, NodeRecord.key, hseen, hregistration]
  rw [judge_eq_judgeEnvelope_bind, judge_eq_judgeEnvelope_bind, judgeEnvelope_congr h, hrecord]

/-! ## Hashes of the bytes -/

/-- The bytes are those of the ping, its identity is their hash, and what is signed is found in
them: of the ping, all that stands before its own signature; of the registration, all that stands
before the signature of that, from where the key, the block and the config of the ping end. -/
structure IsReadFrom (p : Ping) (bytes : List UInt8) : Prop where
  encode : p.encode = bytes
  hash : p.hash = Hash.sha256d bytes
  sigHash : ∃ signed, bytes = signed ++ varBytes p.signature ∧ p.sigHash = Hash.sha256d signed
  registration_sigHash : ∃ signed,
    bytes = p.key.bytes ++ p.anchor.encode ++ varText p.config ++
      (signed ++ varBytes p.record.registration.signature) ++ varBytes p.signature ∧
    p.record.registration.sigHash = Hash.sha256d signed

theorem isReadFrom_of_receive {clocks : Readings} {bytes : List UInt8}
    (h : receive clocks bytes = .ok p) : p.IsReadFrom bytes := by
  have hencode : p.encode = bytes := encode_of_receive h
  refine ⟨hencode, ?_, ⟨p.signedBytes, ?_, rfl⟩, p.record.registration.signedBytes, ?_, rfl⟩
  · rw [hash_eq_sha256d_encode, hencode]
  · rw [← hencode, encode_eq_append]
  · rw [← hencode, encode, NodeRecord.encode, Registration.encode_eq_append]

end Ping

/-- **Peers agree on a ping, whatever their clocks.** Whatever two clocks show while the same bytes
are received, either both refuse them for the same reason, or they are received as two pings that
have the same encoding and the same hashes, all of them hashes of the bytes, and that are judged
alike, by the same questions in the same order. The two differ in nothing but the times noted in the
record. -/
theorem received_alike (bytes : List UInt8) (clocks clocks' : Readings) :
    (∃ e, Ping.receive clocks bytes = .error e ∧ Ping.receive clocks' bytes = .error e) ∨
    ∃ p p', Ping.receive clocks bytes = .ok p ∧ Ping.receive clocks' bytes = .ok p' ∧
      p.IsReadFrom bytes ∧ p'.IsReadFrom bytes ∧
      p.sigHash = p'.sigHash ∧
      (∀ chain params, p.judge chain params = p'.judge chain params) ∧
      p' = { p with
        record := { p.record with
          regTime := clocks'.record.noted, pingTime := clocks'.ping.noted } } := by
  have hreceive := Ping.receive_eq_map clocks.record clocks bytes
  have hreceive' := Ping.receive_eq_map clocks.record clocks' bytes
  cases hread : (Ping.reader clocks.record).whole bytes with
  | error e =>
    rw [hread] at hreceive hreceive'
    exact .inl ⟨e, hreceive, hreceive'⟩
  | ok q =>
    rw [hread] at hreceive hreceive'
    have hfields : (q.receivedAt clocks).fields = (q.receivedAt clocks').fields := by
      rw [Ping.fields_receivedAt, Ping.fields_receivedAt]
    have hseen : (q.receivedAt clocks).record.lastSeen = (q.receivedAt clocks').record.lastSeen := by
      rw [Ping.lastSeen_receivedAt, Ping.lastSeen_receivedAt]
    exact .inr ⟨_, _, hreceive, hreceive', Ping.isReadFrom_of_receive hreceive,
      Ping.isReadFrom_of_receive hreceive',
      congrArg Hash.sha256d (Ping.signedBytes_eq_of_fields hfields),
      Ping.judge_congr hfields hseen, rfl⟩

/-- The sample ping is received while the one clock runs on and the other one stands still. Both
peers admit it, under one hash and with their own times. -/
theorem received_alike_admitted :
    ∃ bytes p p', Ping.receive ⟨9, 10⟩ bytes = .ok p ∧ Ping.receive (12 : Time) bytes = .ok p' ∧
      p.hash = p'.hash ∧
      (p.judge .ofSamples {}).outcome = .ok () ∧ (p'.judge .ofSamples {}).outcome = .ok () ∧
      (p.record.regTime = 9 ∧ p.record.pingTime = 10) ∧
      p'.record.regTime = 12 ∧ p'.record.pingTime = 12 := by
  obtain ⟨bytes, -, q, -, hreceive, -, hjudge⟩ := Ping.exists_received_sample
  obtain ⟨e, hrefused, -⟩ | ⟨p, p', hp, hp', hread, hread', -, hverdicts, -⟩ :=
    received_alike bytes ⟨9, 10⟩ (12 : Time)
  · rw [hreceive] at hrefused
    cases hrefused
  · obtain rfl : q = p := Except.ok.inj (hreceive.symm.trans hp)
    have hjudge' : (p'.judge .ofSamples {}).outcome = .ok () := by
      rw [← hverdicts, hjudge]
    exact ⟨bytes, q, p', hp, hp', hread.hash.trans hread'.hash.symm, hjudge, hjudge',
      Ping.times_of_receive hp, Ping.times_of_receive hp'⟩

end NodeAdmission
