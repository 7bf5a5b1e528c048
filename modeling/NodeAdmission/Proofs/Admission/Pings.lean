import NodeAdmission.Proofs.Admission.Acceptance
import NodeAdmission.Proofs.Record.RoundTrip
/-!
# Which pings are admitted

A ping is judged in two parts. The first one, `Ping.judgeEnvelope`, looks at what the ping itself
says and at the key of its record; the second one judges the record, which need not have been seen
at a recent block then.

Of what is noted in a record only the last block seen matters, and of that only whether the chain
accepts it (`NodeRecord.outcome_judge_congr`). So two copies of one registration are judged alike
wherever both of their blocks are accepted, recent or not.
-/

namespace NodeAdmission

variable {chain : ChainAccess} {params : StakeParams}

/-! ## Copies of one registration -/

/-- Judges a registration wherever its node was seen. -/
def Registration.judgeClaim (chain : ChainAccess) (params : StakeParams) (r : Registration) :
    Audit Unit := do
  Audit.require r.key.isFullyValid .invalidKey
  r.judgeTier chain params

theorem NodeRecord.outcome_judge_of_checkAnchor {n : NodeRecord} {enforce : Bool}
    (h : chain.checkAnchor n.lastSeen enforce = true) :
    (n.judge chain params enforce).outcome =
      (n.registration.judgeClaim chain params).outcome := by
  simp only [judge, Audit.askAnchor, h]
  rfl

theorem NodeRecord.outcome_judge_congr {m n : NodeRecord} {enforce enforce' : Bool}
    (h : m.registration = n.registration)
    (hm : chain.checkAnchor m.lastSeen enforce = true)
    (hn : chain.checkAnchor n.lastSeen enforce' = true) :
    (m.judge chain params enforce).outcome = (n.judge chain params enforce').outcome := by
  rw [outcome_judge_of_checkAnchor hm, outcome_judge_of_checkAnchor hn, h]

/-! ## The two parts of judging a ping -/

namespace Ping

/-- Judges what a ping says beside its record. -/
def judgeEnvelope (chain : ChainAccess) (p : Ping) : Audit Unit := do
  let current ← Audit.askAnchor chain p.anchor true
  Audit.require current (.staleOrUnknownAnchor p.anchor.height)
  Audit.require p.key.isFullyValid .invalidKey
  Audit.require (p.key = p.record.key) .identityMismatch
  let _ ← Audit.ofExcept ((Capabilities.parse p.config).mapError .malformedConfig)
  let signer ← Audit.signerOf p.sigHash p.signature
  Audit.require (signer = p.key.keyId) .signerMismatch

variable {p : Ping}

theorem judge_eq_judgeEnvelope_bind :
    p.judge chain params =
      p.judgeEnvelope chain >>= fun _ ↦ p.record.judge chain params false := by
  simp only [judge, judgeEnvelope, bind_assoc]

theorem outcome_judgeEnvelope_eq_ok_iff :
    (p.judgeEnvelope chain).outcome = .ok () ↔
      chain.checkAnchor p.anchor true = true ∧ p.key.isFullyValid = true ∧ p.key = p.record.key ∧
        (∃ c, Capabilities.parse p.config = .ok c) ∧
        ∃ key, recoverCompact p.sigHash p.signature = .ok key ∧ key.keyId = p.key.keyId := by
  have hparse : (∃ c, (Capabilities.parse p.config).mapError Rejection.malformedConfig = .ok c) ↔
      ∃ c, Capabilities.parse p.config = .ok c := by
    cases Capabilities.parse p.config <;> simp [Except.mapError]
  simp [judgeEnvelope, Audit.outcome_bind_eq_ok_iff, Audit.outcome_signerOf_eq_ok_iff, hparse]

theorem outcome_judge_iff_judgeEnvelope :
    (p.judge chain params).outcome = .ok () ↔
      (p.judgeEnvelope chain).outcome = .ok () ∧
        (p.record.judge chain params false).outcome = .ok () := by
  rw [judge_eq_judgeEnvelope_bind, Audit.outcome_unit_bind_eq_ok_iff]

/-- What is noted in the record has no part in judging the rest of a ping. -/
theorem judgeEnvelope_congr {q : Ping} (h : p.fields = q.fields) :
    p.judgeEnvelope chain = q.judgeEnvelope chain := by
  rcases p with ⟨key, anchor, config, ⟨registration, _, _, _, _, _⟩, signature⟩
  rcases q with ⟨key', anchor', config', ⟨registration', _, _, _, _, _⟩, signature'⟩
  simp only [fields, Prod.mk.injEq] at h
  obtain ⟨rfl, rfl, rfl, rfl, rfl⟩ := h
  rfl

/-- Two pings that agree in what travels are judged alike, if the chain accepts the blocks noted in
their records whenever the block of the pings is a recent one. -/
theorem outcome_judge_congr {q : Ping} (h : p.fields = q.fields)
    (hseen : chain.checkAnchor p.anchor true = true →
      chain.checkAnchor p.record.lastSeen false = true ∧
        chain.checkAnchor q.record.lastSeen false = true) :
    (p.judge chain params).outcome = (q.judge chain params).outcome := by
  have hregistration : p.record.registration = q.record.registration :=
    congrArg (fun travels ↦ travels.2.2.2.1) h
  rw [judge_eq_judgeEnvelope_bind, judge_eq_judgeEnvelope_bind, ← judgeEnvelope_congr h]
  refine Audit.outcome_bind_congr fun () henvelope ↦ ?_
  obtain ⟨hanchor, -⟩ := outcome_judgeEnvelope_eq_ok_iff.mp henvelope
  obtain ⟨hp, hq⟩ := hseen hanchor
  exact NodeRecord.outcome_judge_congr hregistration hp hq

end Ping

end NodeAdmission
