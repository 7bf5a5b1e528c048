import NodeAdmission.Admission.Judge
import NodeAdmission.Proofs.Admission.Stake
/-!
# Which registrations are admitted

`NodeRecord.outcome_judge_eq_ok_iff` says in full when a record is admitted. The verdict on a staked
registration is reached with a memory of scripts and with sums that stop at the largest amount; the
condition speaks of every single output and of the exact sum.
-/

namespace NodeAdmission

theorem Audit.outcome_signerOf_eq_ok_iff {hash : Hash} {signature : List UInt8} {id : KeyId} :
    (Audit.signerOf hash signature).outcome = .ok id ↔
      ∃ key, recoverCompact hash signature = .ok key ∧ key.keyId = id := by
  rw [Audit.signerOf]
  cases recoverCompact hash signature <;> simp [Audit.reject]

namespace Registration

variable {chain : ChainAccess} {params : StakeParams} {r : Registration}

/-! ## The two tiers -/

theorem outcome_judgeSelfSigned_eq_ok_iff :
    r.judgeSelfSigned.outcome = .ok () ↔
      ∃ key, recoverCompact r.sigHash r.signature = .ok key ∧ key.keyId = r.key.keyId := by
  simp [judgeSelfSigned, Audit.outcome_bind_eq_ok_iff, Audit.outcome_signerOf_eq_ok_iff]

/-- The staked tier's checks one by one. -/
theorem outcome_judgeStaked_eq_ok_iff_steps {maxCount : UInt64} {required : Amount} :
    (r.judgeStaked chain maxCount required).outcome = .ok () ↔
      r.paymentKeyHash ≠ .zero 20 ∧ Collateral.checkSet r.collateral maxCount = .ok () ∧
        ∃ id, (Audit.signerOf r.sigHash r.signature).outcome = .ok id ∧
          ∃ total, (Collateral.verify chain id r.collateral).outcome = .ok total ∧
            required ≤ total := by
  rw [judgeStaked, Audit.outcome_unit_bind_eq_ok_iff, Audit.outcome_unit_bind_eq_ok_iff]
  simp [Audit.outcome_bind_eq_ok_iff]

theorem outcome_judgeStaked_eq_ok_iff {maxCount : UInt64} {required : Amount}
    (hinj : (Collateral.scripts chain r.collateral).InjOn Hash.hash160) :
    (r.judgeStaked chain maxCount required).outcome = .ok () ↔
      r.paymentKeyHash ≠ .zero 20 ∧
        (r.collateral.Nodup ∧ 1 ≤ r.collateral.length ∧
          r.collateral.length ≤ maxCount.toNat) ∧
        ∃ owner, recoverCompact r.sigHash r.signature = .ok owner ∧
          Collateral.Backs chain owner.keyId required r.collateral := by
  rw [outcome_judgeStaked_eq_ok_iff_steps, Collateral.checkSet_eq_ok_iff]
  simp only [Collateral.exists_outcome_verify_iff (.of_injOn hinj),
    Audit.outcome_signerOf_eq_ok_iff]
  constructor
  · rintro ⟨hpay, hset, _, ⟨owner, hrec, rfl⟩, hbacks⟩
    exact ⟨hpay, hset, owner, hrec, hbacks⟩
  · rintro ⟨hpay, hset, owner, hrec, hbacks⟩
    exact ⟨hpay, hset, _, ⟨owner, hrec, rfl⟩, hbacks⟩

/-- Without a policy for its tier a registration is never admitted; the other two tiers have their
own conditions. -/
theorem outcome_judgeTier_eq_ok_iff :
    (r.judgeTier chain params).outcome = .ok () ↔
      (r.tier = .free ∧ r.judgeSelfSigned.outcome = .ok ()) ∨
        (r.tier = .spv ∧
          (r.judgeStaked chain params.maxCollateralCount params.spvCollateral).outcome =
            .ok ()) := by
  rw [judgeTier]
  cases htier : r.tier with
  | free => simp [Tier.policy?, Audit.outcome_bind_eq_ok_iff]
  | spv => simp [Tier.policy?, Audit.outcome_bind_eq_ok_iff]
  | unrecognized b => simp [Tier.policy?, Audit.outcome_bind_eq_ok_iff]

end Registration

/-! ## The record -/

theorem NodeRecord.outcome_judge_iff_judgeTier {chain : ChainAccess} {params : StakeParams}
    {enforce : Bool} {n : NodeRecord} :
    (n.judge chain params enforce).outcome = .ok () ↔
      chain.checkAnchor n.lastSeen enforce = true ∧ n.key.isFullyValid = true ∧
        (n.registration.judgeTier chain params).outcome = .ok () := by
  simp [judge, Audit.outcome_bind_eq_ok_iff]

/-- **Exact acceptance.** A record is admitted exactly if its last block is accepted, its key is a
point of the curve, and either it is free and its node signed it, or it is staked, says where to
pay, and lists without repetition as many outpoints as are allowed, whose outputs all pay the key
that signed and are worth enough together. -/
theorem NodeRecord.outcome_judge_eq_ok_iff (chain : ChainAccess) (params : StakeParams)
    (enforce : Bool) (n : NodeRecord)
    (hinj : (Collateral.scripts chain n.registration.collateral).InjOn Hash.hash160) :
    (n.judge chain params enforce).outcome = .ok () ↔
      chain.checkAnchor n.lastSeen enforce = true ∧ n.key.isFullyValid = true ∧
        ((n.registration.tier = .free ∧
            ∃ key, recoverCompact n.registration.sigHash n.registration.signature = .ok key ∧
              key.keyId = n.key.keyId) ∨
          (n.registration.tier = .spv ∧ n.registration.paymentKeyHash ≠ .zero 20 ∧
            (n.registration.collateral.Nodup ∧ 1 ≤ n.registration.collateral.length ∧
              n.registration.collateral.length ≤ params.maxCollateralCount.toNat) ∧
            ∃ owner, recoverCompact n.registration.sigHash n.registration.signature = .ok owner ∧
              ∃ outs, List.Forall₂ chain.Resolves n.registration.collateral outs ∧
                (∀ out ∈ outs,
                  Destination.ofScript? out.script = some (.keyHash owner.keyId)) ∧
                params.spvCollateral.toNat ≤ (outs.map fun out ↦ out.value.toNat).sum)) := by
  rw [outcome_judge_iff_judgeTier, Registration.outcome_judgeTier_eq_ok_iff,
    Registration.outcome_judgeSelfSigned_eq_ok_iff,
    Registration.outcome_judgeStaked_eq_ok_iff hinj]
  rfl

/-! ## Outputs of two owners -/

/-- A chain on which every outpoint leads to one transaction, and every block is accepted. -/
def ChainAccess.paying (outputs : List Output) : ChainAccess where
  lookup _ := some { version := 1, inputs := [], outputs }
  checkAnchor _ _ := true

theorem Collateral.injOn_scripts_paying {outputs : List Output}
    (h : ∀ a ∈ outputs, ∀ b ∈ outputs,
      Hash.hash160 a.script = Hash.hash160 b.script → a.script = b.script) (os : List OutPoint) :
    (scripts (.paying outputs) os).InjOn Hash.hash160 := by
  have hmem : ∀ {o out}, (ChainAccess.paying outputs).Resolves o out → out ∈ outputs := by
    rintro o out ⟨tx, htx, hout⟩
    cases htx
    exact List.mem_of_getElem? hout
  rintro s ⟨o, -, a, ha, rfl⟩ t ⟨p, -, b, hb, rfl⟩ hid
  exact h a (hmem ha) b (hmem hb) hid

/-- A staked registration that lists the first two outputs of one transaction. -/
def Registration.listingTwo (key : IdentityKey) (signature : List UInt8) : Registration where
  key
  tier := .spv
  paymentKeyHash := .replicate 20 7
  collateral := [{ txid := .zero 32, index := 0 }, { txid := .zero 32, index := 1 }]
  anchor := { height := 0, hash := .zero 32 }
  signature

/-- An output worth enough stake for each of two owners. -/
def Output.ofTwoOwners : List Output :=
  [{ value := 500_000_000_000, script := Destination.payToKeyHash (.replicate 20 1) },
    { value := 500_000_000_000, script := Destination.payToKeyHash (.replicate 20 2) }]

/-- Outputs of two owners do not back one registration, of whatever key and whoever signs it. -/
theorem NodeRecord.outcome_judge_eq_ok_iff_two_owners :
    (∀ a ∈ Output.ofTwoOwners, ∀ b ∈ Output.ofTwoOwners,
      Hash.hash160 a.script = Hash.hash160 b.script → a.script = b.script) ∧
      ¬∃ key signature, ((NodeRecord.receive 9 (.listingTwo key signature)).judge
        (.paying Output.ofTwoOwners) {} true).outcome = .ok () := by
  have hhashes : ∀ a ∈ Output.ofTwoOwners, ∀ b ∈ Output.ofTwoOwners,
      Hash.hash160 a.script = Hash.hash160 b.script → a.script = b.script := by decide +kernel
  refine ⟨hhashes, ?_⟩
  rintro ⟨key, signature, h⟩
  obtain ⟨-, -, ⟨hfree, -⟩ | ⟨-, -, -, owner, -, outs, hres, hpays, -⟩⟩ :=
    (outcome_judge_eq_ok_iff (.paying Output.ofTwoOwners) {} true _
      (Collateral.injOn_scripts_paying hhashes _)).mp h
  · cases hfree
  · obtain ⟨a, _, ha, hrest, rfl⟩ := List.forall₂_cons_left_iff.mp hres
    obtain ⟨b, _, hb, -, rfl⟩ := List.forall₂_cons_left_iff.mp hrest
    obtain rfl := ha.unique ⟨_, rfl, rfl⟩
    obtain rfl := hb.unique ⟨_, rfl, rfl⟩
    have hfirst : Destination.ofScript? (Destination.payToKeyHash (.replicate 20 1)) =
        some (.keyHash owner.keyId) := hpays _ List.mem_cons_self
    have hsecond : Destination.ofScript? (Destination.payToKeyHash (.replicate 20 2)) =
        some (.keyHash owner.keyId) := hpays _ (List.mem_cons_of_mem _ List.mem_cons_self)
    exact absurd (hfirst.trans hsecond.symm) (by decide)

end NodeAdmission
