import NodeAdmission.Proofs.Admission.Relay
import NodeAdmission.Proofs.Chain.Spending
/-!
# Spent stake

Collateral that does not resolve is refused whatever else holds, the memory of scripts included: an
outpoint is looked up before its script is compared with the remembered ones. Since a view never
forgets a spend, a staked record loses its place for good with the first transaction that spends one
of its outpoints.
-/

namespace NodeAdmission

variable {chain : ChainAccess} {params : StakeParams}

/-! ## Collateral has to resolve -/

/-- By induction on the outpoints; what is remembered and added up on the way is of no concern. -/
theorem Collateral.lookup_ne_none_of_verifyFrom {owner : KeyId} {os : List OutPoint}
    {total sum : Amount} {trusted : List KeyId}
    (h : (verifyFrom chain owner total trusted os).outcome = .ok sum) :
    ∀ o ∈ os, chain.lookup o ≠ none := by
  induction os generalizing total trusted with
  | nil => simp
  | cons o os ih =>
    rw [verifyFrom] at h
    simp only [Audit.outcome_bind_eq_ok_iff, Audit.outcome_askOutput, Audit.outcome_get?_eq_ok_iff,
      Except.ok.injEq] at h
    obtain ⟨tx?, rfl, tx, htx, out, -, hrest⟩ := h
    refine List.forall_mem_cons.mpr ⟨by simp [htx], ?_⟩
    split at hrest
    · exact ih hrest
    · obtain ⟨-, -, hrest⟩ := Audit.outcome_bind_eq_ok_iff.mp hrest
      exact ih hrest

theorem NodeRecord.lookup_ne_none_of_judge {n : NodeRecord} {enforce : Bool}
    (htier : n.registration.tier = .spv) (h : (n.judge chain params enforce).outcome = .ok ()) :
    ∀ o ∈ n.registration.collateral, chain.lookup o ≠ none := by
  obtain ⟨-, -, hjudge⟩ := outcome_judge_iff_judgeTier.mp h
  rcases Registration.outcome_judgeTier_eq_ok_iff.mp hjudge with ⟨hfree, -⟩ | ⟨-, hstaked⟩
  · rw [htier] at hfree
    cases hfree
  · obtain ⟨-, -, owner, -, total, hverify, -⟩ :=
      Registration.outcome_judgeStaked_eq_ok_iff_steps.mp hstaked
    exact Collateral.lookup_ne_none_of_verifyFrom hverify

/-! ## Rejection -/

/-- A verdict that is not an admission is a rejection. -/
theorem Verdict.exists_error_of_ne_ok {v : Verdict} (h : v ≠ .ok ()) :
    ∃ reason, v = .error reason := by
  cases v with
  | error reason => exact ⟨reason, rfl⟩
  | ok u => exact absurd rfl h

theorem NodeRecord.exists_error_of_lookup_eq_none {n : NodeRecord} {enforce : Bool} {o : OutPoint}
    (htier : n.registration.tier = .spv) (ho : o ∈ n.registration.collateral)
    (hnone : chain.lookup o = none) :
    ∃ reason, (n.judge chain params enforce).outcome = .error reason :=
  Verdict.exists_error_of_ne_ok fun h ↦ lookup_ne_none_of_judge htier h o ho hnone

theorem Ping.exists_error_of_lookup_eq_none {p : Ping} {o : OutPoint}
    (htier : p.record.registration.tier = .spv) (ho : o ∈ p.record.registration.collateral)
    (hnone : chain.lookup o = none) :
    ∃ reason, (p.judge chain params).outcome = .error reason :=
  Verdict.exists_error_of_ne_ok fun h ↦
    NodeRecord.lookup_ne_none_of_judge htier (outcome_judge_iff_judgeEnvelope.mp h).2 o ho hnone

theorem View.access_lookup_eq_none_of_mem_inputs (policy : ViewPolicy)
    (before later : List ChainEvent) {e : ChainEvent} {tx : Transaction} {o : OutPoint}
    (he : e.transaction? = some tx) (ho : o ∈ tx.inputs) :
    (ofHistory policy (before ++ e :: later)).access.lookup o = none := by
  have hmem : tx ∈ (before ++ e :: later).filterMap ChainEvent.transaction? :=
    List.mem_filterMap.mpr ⟨e, by simp, he⟩
  exact lookup_of_isSpent (isSpent_ofHistory_iff.mpr ⟨tx, hmem, ho⟩)

/-- **Spent stake is revoked for ever.** Once a transaction that spends an outpoint was confirmed or
announced, then whatever happens later the view rejects every staked record that lists the outpoint,
and every ping that carries such a record, reconciled or not. -/
theorem spent_stake_rejected (policy : ViewPolicy) (before : List ChainEvent) (e : ChainEvent)
    (tx : Transaction) (o : OutPoint) (he : e.transaction? = some tx) (ho : o ∈ tx.inputs)
    (later : List ChainEvent) (params : StakeParams) :
    (∀ (n : NodeRecord) (enforce : Bool), n.registration.tier = .spv →
      o ∈ n.registration.collateral →
      ∃ reason, (n.judge (View.ofHistory policy (before ++ e :: later)).access params
        enforce).outcome = .error reason) ∧
    ∀ p : Ping, p.record.registration.tier = .spv → o ∈ p.record.registration.collateral →
      (∃ reason, (p.judge (View.ofHistory policy (before ++ e :: later)).access params).outcome =
        .error reason) ∧
      ∀ clock, ∃ reason, ((p.reconcile clock).judge
        (View.ofHistory policy (before ++ e :: later)).access params).outcome = .error reason := by
  have hnone := View.access_lookup_eq_none_of_mem_inputs policy before later he ho
  refine ⟨fun n enforce htier hmem ↦ n.exists_error_of_lookup_eq_none htier hmem hnone, ?_⟩
  intro p htier hmem
  refine ⟨p.exists_error_of_lookup_eq_none htier hmem hnone, fun clock ↦ ?_⟩
  exact (p.reconcile clock).exists_error_of_lookup_eq_none htier hmem hnone

/-! ## A stake that is spent -/

/-- A transaction with one output, which pays the base point and is worth just enough stake. -/
def Transaction.stakeSample : Transaction where
  version := 1
  inputs := [.null]
  outputs :=
    [{ value := 500_000_000_000, script := Destination.payToKeyHash (KeyPair.unit true).keyId }]

/-- Where that output is found. -/
def OutPoint.stakeSample : OutPoint := { txid := Transaction.stakeSample.txid, index := 0 }

/-- A registration of the base point that is backed by the output. -/
def Registration.backedSample : Registration where
  key := (KeyPair.unit true).publicKey
  tier := .spv
  paymentKeyHash := .replicate 20 7
  collateral := [.stakeSample]
  anchor := { height := 0, hash := .zero 32 }
  signature := []

/-- The registration with its owner's signature, as a record. -/
def NodeRecord.backedSample : NodeRecord :=
  .receive 5 (Registration.backedSample.withSignature
    (CompactSignature.byUnit Registration.backedSample.sigHash (by decide +kernel)))

/-- What the node of the record signs when it pings at the block of its registration. -/
def Ping.unsignedBackedSample : Ping :=
  .unsigned (KeyPair.unit true).publicKey Registration.backedSample.anchor "50,BTC" .backedSample

/-- The ping with the signature of the node. -/
def Ping.backedSample : Ping :=
  unsignedBackedSample.withSignature
    (CompactSignature.byUnit unsignedBackedSample.sigHash (by decide +kernel))

/-- The block of the registration comes, and the stake is confirmed. -/
def ChainEvent.staking : List ChainEvent := [.block (.zero 32), .confirm .stakeSample]

/-- The spend of the stake is announced. -/
def ChainEvent.spending : ChainEvent := .announce (View.spendingFirst .stakeSample)

/-- The spend is confirmed and announced again, the stake is confirmed again, and the chain is cut
down to the block of the registration. -/
def ChainEvent.respending : List ChainEvent :=
  [.confirm (View.spendingFirst .stakeSample), spending, .confirm .stakeSample, .rewind 0]

/-- The view on which the stake is not spent yet. -/
def View.staked : View := ofHistory {} ChainEvent.staking

theorem View.checkAnchor_staked (enforce : Bool) :
    staked.access.checkAnchor Registration.backedSample.anchor enforce = true := by
  have hrecent : staked.access.checkAnchor Registration.backedSample.anchor true = true := by
    decide +kernel
  cases enforce with
  | false => exact staked.recentAreKnown_access _ hrecent
  | true => exact hrecent

theorem NodeRecord.outcome_judge_backedSample (enforce : Bool) :
    (backedSample.judge View.staked.access {} enforce).outcome = .ok () := by
  have hlookup : View.staked.access.lookup .stakeSample = some .stakeSample := by decide +kernel
  have hpays : ∀ out ∈ Transaction.stakeSample.outputs,
      Destination.ofScript? out.script = some (.keyHash (KeyPair.unit true).keyId) :=
    List.forall_mem_singleton.mpr (KeyPair.ofScript?_eq_some (.inl rfl))
  have hbacks : Collateral.Backs View.staked.access (KeyPair.unit true).keyId 500_000_000_000
      Registration.backedSample.collateral :=
    ⟨Transaction.stakeSample.outputs, .cons ⟨_, hlookup, rfl⟩ .nil, hpays, by decide⟩
  have hset : Collateral.checkSet Registration.backedSample.collateral 10 = .ok () :=
    Collateral.checkSet_eq_ok_iff.mpr ⟨List.nodup_singleton _, by decide, by decide⟩
  have hrecover : recoverCompact backedSample.registration.sigHash
      backedSample.registration.signature = .ok ⟨(KeyPair.unit true).point, true⟩ :=
    recoverCompact_byUnit Registration.backedSample.sigHash _
  exact outcome_judge_of_backs (View.checkAnchor_staked enforce)
    (KeyPair.unit true).isFullyValid_publicKey rfl (by decide) hset hrecover hbacks

theorem Ping.outcome_judge_backedSample :
    (backedSample.judge View.staked.access {}).outcome = .ok () :=
  outcome_judge_of_signed (recoverCompact_byUnit unsignedBackedSample.sigHash _) rfl rfl
    ⟨_, Capabilities.parse_sample⟩ (NodeRecord.outcome_judge_backedSample false)
    (View.checkAnchor_staked true)

/-- The record and the ping, reconciled or not, are admitted before the spend and rejected after it.
That is for the stake alone, since the block is still accepted then. -/
theorem spent_stake_rejected_respent :
    let before := View.staked.access
    let after := (View.ofHistory {}
      (ChainEvent.staking ++ ChainEvent.spending :: ChainEvent.respending)).access
    (ChainEvent.spending.transaction? = some (View.spendingFirst .stakeSample) ∧
      .stakeSample ∈ (View.spendingFirst .stakeSample).inputs) ∧
    ((NodeRecord.backedSample.judge before {} true).outcome = .ok () ∧
      (Ping.backedSample.judge before {}).outcome = .ok () ∧
      ((Ping.backedSample.reconcile 9).judge before {}).outcome = .ok ()) ∧
    after.checkAnchor Registration.backedSample.anchor true = true ∧
    (∃ reason, (NodeRecord.backedSample.judge after {} true).outcome = .error reason) ∧
    (∃ reason, (Ping.backedSample.judge after {}).outcome = .error reason) ∧
    ∃ reason, ((Ping.backedSample.reconcile 9).judge after {}).outcome = .error reason := by
  intro before after
  have hinput : .stakeSample ∈ (View.spendingFirst .stakeSample).inputs :=
    List.mem_singleton.mpr rfl
  have hlists : .stakeSample ∈ Registration.backedSample.collateral := List.mem_singleton.mpr rfl
  obtain ⟨hrecord, hpings⟩ := spent_stake_rejected {} ChainEvent.staking ChainEvent.spending _ _ rfl
    hinput ChainEvent.respending {}
  obtain ⟨hping, hreconciled⟩ := hpings Ping.backedSample rfl hlists
  have hknown := View.checkAnchor_staked false
  have hbefore : ((Ping.backedSample.reconcile 9).judge before {}).outcome = .ok () := by
    rw [← Ping.outcome_judge_backedSample]
    exact Ping.outcome_judge_congr (Ping.fields_reconcile _ 9) fun _ ↦ ⟨hknown, hknown⟩
  exact ⟨⟨rfl, hinput⟩,
    ⟨NodeRecord.outcome_judge_backedSample true, Ping.outcome_judge_backedSample, hbefore⟩,
    by decide +kernel, hrecord NodeRecord.backedSample true rfl hlists, hping, hreconciled 9⟩

end NodeAdmission
