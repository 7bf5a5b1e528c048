import Mathlib.Algebra.BigOperators.Group.List.Basic
import NodeAdmission.Proofs.Admission.Acceptance
import NodeAdmission.Proofs.Stake.Destination
/-!
# Remembering scripts changes nothing

Outputs often share one script, and checking collateral takes a script apart only once. As long as
no two scripts in play have one identity, nobody can tell (`memory_changes_nothing`): answer and
questions are those of the walk that takes every script apart, the failure is that of the first
outpoint in the list that has one (`Collateral.Fault`), and the total is the exact sum, cut at the
largest amount. A sum does not depend on the order of its terms, so neither does the total.
-/

namespace NodeAdmission

namespace Collateral

variable {chain : ChainAccess} {owner : KeyId} {o : OutPoint} {os os' : List OutPoint}
  {reason : Rejection}

/-! ## The first failure -/

/-- Why an outpoint by itself is no stake of the owner. -/
inductive Fault (chain : ChainAccess) (owner : KeyId) (o : OutPoint) : Rejection → Prop where
  /-- It leads to no transaction. -/
  | unresolvable : chain.lookup o = none → Fault chain owner o (.unresolvableOrSpentCollateral o)
  /-- The transaction has no output at its position. -/
  | outOfRange {tx : Transaction} : chain.lookup o = some tx → tx.output? o.index = none →
    Fault chain owner o (.collateralIndexOutOfRange o)
  /-- The output pays no key hash, or not the owner's. -/
  | foreign {out : Output} : chain.Resolves o out →
    Destination.ofScript? out.script ≠ some (.keyHash owner) →
    Fault chain owner o (.destinationMismatch o)

/-- The outpoint leads to an output that pays the owner. -/
def Owned (chain : ChainAccess) (owner : KeyId) (o : OutPoint) : Prop :=
  ∃ out, chain.Resolves o out ∧ Destination.ofScript? out.script = some (.keyHash owner)

theorem ownedValue_eq_error_iff :
    ownedValue chain owner o = .error reason ↔ Fault chain owner o reason := by
  constructor
  · intro h
    rw [ownedValue] at h
    split at h
    · next hlookup =>
      cases h
      exact .unresolvable hlookup
    · next tx hlookup =>
      split at h
      · next hindex =>
        cases h
        exact .outOfRange hlookup hindex
      · next out hindex =>
        split at h
        · cases h
        · next hforeign =>
          cases h
          exact .foreign ⟨tx, hlookup, hindex⟩ hforeign
  · rintro (hlookup | ⟨hlookup, hindex⟩ | ⟨⟨tx, hlookup, hindex⟩, hforeign⟩)
    · simp only [ownedValue, hlookup]
    · simp only [ownedValue, hlookup, hindex]
    · simp only [ownedValue, hlookup, hindex, if_neg hforeign]

theorem exists_ownedValue_eq_ok_iff :
    (∃ v, ownedValue chain owner o = .ok v) ↔ Owned chain owner o := by
  simp only [ownedValue_eq_ok_iff]
  constructor
  · rintro ⟨_, out, hout, hpays, rfl⟩
    exact ⟨out, hout, hpays⟩
  · rintro ⟨out, hout, hpays⟩
    exact ⟨_, out, hout, hpays, rfl⟩

/-- Adding up fails as the first outpoint does that is no stake of the owner. By induction on the
list. -/
theorem exactTotal_eq_error_iff :
    exactTotal chain owner os = .error reason ↔
      ∃ before o after, os = before ++ o :: after ∧ (∀ p ∈ before, Owned chain owner p) ∧
        Fault chain owner o reason := by
  induction os with
  | nil => simp [exactTotal]
  | cons o os ih =>
    have hcons : exactTotal chain owner (o :: os) = .error reason ↔
        Fault chain owner o reason ∨
          Owned chain owner o ∧ exactTotal chain owner os = .error reason := by
      rw [exactTotal_cons, ← ownedValue_eq_error_iff, ← exists_ownedValue_eq_ok_iff]
      cases ownedValue chain owner o with
      | error e => simp [bind, Except.bind]
      | ok v => cases exactTotal chain owner os <;> simp [bind, Except.bind, Except.map]
    rw [hcons, ih]
    constructor
    · rintro (hfault | ⟨howned, before, p, after, rfl, hbefore, hfault⟩)
      · exact ⟨[], o, os, rfl, by simp, hfault⟩
      · exact ⟨o :: before, p, after, rfl, List.forall_mem_cons.mpr ⟨howned, hbefore⟩, hfault⟩
    · rintro ⟨_ | ⟨q, before⟩, p, after, hsplit, hbefore, hfault⟩
      · obtain ⟨rfl, rfl⟩ := List.cons.inj hsplit
        exact .inl hfault
      · obtain ⟨rfl, rfl⟩ := List.cons.inj hsplit
        obtain ⟨howned, hbefore⟩ := List.forall_mem_cons.mp hbefore
        exact .inr ⟨howned, before, p, after, rfl, hbefore, hfault⟩

/-! ## The order of the list -/

theorem scripts_eq_of_perm (h : os.Perm os') : scripts chain os = scripts chain os' := by
  ext s
  exact exists_congr fun o ↦ and_congr_left' h.mem_iff

theorem exactTotal_eq_ok_of_perm (h : os.Perm os') {sum : ℕ}
    (hsum : exactTotal chain owner os' = .ok sum) : exactTotal chain owner os = .ok sum := by
  obtain ⟨outs', hresolves', hpays', rfl⟩ := exactTotal_eq_ok_iff.mp hsum
  obtain ⟨outs, hresolves, houts⟩ := List.perm_comp_forall₂ h hresolves'
  refine exactTotal_eq_ok_iff.mpr ⟨outs, hresolves, ?_, ?_⟩
  · exact fun out hout ↦ hpays' out (houts.mem_iff.mp hout)
  · exact (houts.map _).sum_eq

theorem outcome_verify_eq_ok_of_perm (htells : IdentityTells owner (scripts chain os))
    (h : os.Perm os') {total : Amount} (htotal : (verify chain owner os').outcome = .ok total) :
    (verify chain owner os).outcome = .ok total := by
  rw [outcome_verify (scripts_eq_of_perm h ▸ htells)] at htotal
  rw [outcome_verify htells]
  cases hsum : exactTotal chain owner os' with
  | error e =>
    rw [hsum] at htotal
    cases htotal
  | ok sum => rw [exactTotal_eq_ok_of_perm h hsum, ← htotal, hsum]

/-! ## Failures and totals -/

theorem outcome_verify_eq_error_iff (htells : IdentityTells owner (scripts chain os)) :
    (verify chain owner os).outcome = .error reason ↔
      exactTotal chain owner os = .error reason := by
  rw [outcome_verify htells]
  cases exactTotal chain owner os <;> simp [Except.map]

theorem outcome_verify_eq_ok_iff (htells : IdentityTells owner (scripts chain os))
    {total : Amount} :
    (verify chain owner os).outcome = .ok total ↔
      ∃ outs, List.Forall₂ chain.Resolves os outs ∧
        (∀ out ∈ outs, Destination.ofScript? out.script = some (.keyHash owner)) ∧
        total.toNat = min (outs.map fun out ↦ out.value.toNat).sum (2 ^ 64 - 1) := by
  have hsum : (verify chain owner os).outcome = .ok total ↔
      ∃ sum, exactTotal chain owner os = .ok sum ∧ total.toNat = min sum (2 ^ 64 - 1) := by
    rw [outcome_verify htells]
    cases exactTotal chain owner os with
    | error e => simp [Except.map]
    | ok sum => simp [Except.map, ← UInt64.toNat_inj, toNat_cut, eq_comm, UInt64.size]
  rw [hsum]
  simp only [exactTotal_eq_ok_iff]
  constructor
  · rintro ⟨_, ⟨outs, hresolves, hpays, rfl⟩, htotal⟩
    exact ⟨outs, hresolves, hpays, htotal⟩
  · rintro ⟨outs, hresolves, hpays, htotal⟩
    exact ⟨_, ⟨outs, hresolves, hpays, rfl⟩, htotal⟩

end Collateral

open Collateral in
/-- **Remembering scripts changes nothing.** Where no two of the scripts have one identity, checking
collateral asks and answers what the walk without a memory does. It fails as the first outpoint does
that leads to no output or to a foreign one, and otherwise its total is the exact sum of the values,
repetitions included, cut at the largest amount. So the total reaches a least value exactly if the
sum does, and another order of the list gives the same total, or none where there was none. -/
theorem memory_changes_nothing (chain : ChainAccess) (owner : KeyId) (os : List OutPoint)
    (hinj : (scripts chain os).InjOn Hash.hash160) :
    verify chain owner os = verifyEach chain owner os ∧
    (∀ reason, (verify chain owner os).outcome = .error reason ↔
      ∃ before o after, os = before ++ o :: after ∧ (∀ p ∈ before, Owned chain owner p) ∧
        Fault chain owner o reason) ∧
    (∀ total, (verify chain owner os).outcome = .ok total ↔
      ∃ outs, List.Forall₂ chain.Resolves os outs ∧
        (∀ out ∈ outs, Destination.ofScript? out.script = some (.keyHash owner)) ∧
        total.toNat = min (outs.map fun out ↦ out.value.toNat).sum (2 ^ 64 - 1)) ∧
    (∀ total outs, (verify chain owner os).outcome = .ok total →
      List.Forall₂ chain.Resolves os outs → ∀ required : Amount,
        required ≤ total ↔ required.toNat ≤ (outs.map fun out ↦ out.value.toNat).sum) ∧
    ∀ os', os.Perm os' → ∀ total,
      (verify chain owner os').outcome = .ok total ↔
        (verify chain owner os).outcome = .ok total := by
  have htells : IdentityTells owner (scripts chain os) := .of_injOn hinj
  refine ⟨verify_eq_verifyEach htells, ?_, fun total ↦ outcome_verify_eq_ok_iff htells, ?_, ?_⟩
  · intro reason
    rw [outcome_verify_eq_error_iff htells, exactTotal_eq_error_iff]
  · intro total outs htotal hresolves required
    obtain ⟨outs', hresolves', -, hmin⟩ := (outcome_verify_eq_ok_iff htells).mp htotal
    obtain rfl : outs' = outs :=
      List.right_unique_forall₂' (fun _ _ _ h h' ↦ h.unique h') hresolves' hresolves
    have hrequired : required.toNat < 2 ^ 64 := required.toNat_lt
    rw [UInt64.le_iff_toNat_le, hmin]
    omega
  · intro os' hperm total
    have htells' : IdentityTells owner (scripts chain os') := scripts_eq_of_perm hperm ▸ htells
    exact ⟨outcome_verify_eq_ok_of_perm htells hperm,
      outcome_verify_eq_ok_of_perm htells' hperm.symm⟩

/-! ## Two scripts of one owner -/

/-- The bytes of a key. -/
def Destination.sampleKey : List UInt8 := 2 :: List.replicate 32 7

/-- Two outputs of the key's owner, one of them worth nearly the largest amount. -/
def Output.ofOneOwner : List Output :=
  [{ value := 0xffff_ffff_ffff_fff0
     script := Destination.payToKeyHash (Hash.hash160 Destination.sampleKey) },
    { value := 9, script := Destination.payToKey Destination.sampleKey }]

/-- The outpoint at a position of the one transaction there is. -/
def OutPoint.atIndex (index : UInt32) : OutPoint := { txid := .zero 32, index }

/-- Only with the repetition the total passes the largest amount, in either order, and behind the
repetition a position without an output is found out. -/
theorem memory_changes_nothing_repeated :
    (∀ a ∈ Output.ofOneOwner, ∀ b ∈ Output.ofOneOwner,
      Hash.hash160 a.script = Hash.hash160 b.script → a.script = b.script) ∧
    (Collateral.verify (.paying Output.ofOneOwner) (Hash.hash160 Destination.sampleKey)
      [.atIndex 1, .atIndex 0, .atIndex 1]).outcome = .ok 0xffff_ffff_ffff_ffff ∧
    (Collateral.verify (.paying Output.ofOneOwner) (Hash.hash160 Destination.sampleKey)
      [.atIndex 0, .atIndex 1, .atIndex 1]).outcome = .ok 0xffff_ffff_ffff_ffff ∧
    (Collateral.verify (.paying Output.ofOneOwner) (Hash.hash160 Destination.sampleKey)
      [.atIndex 1, .atIndex 1, .atIndex 2, .atIndex 0]).outcome =
        .error (.collateralIndexOutOfRange (.atIndex 2)) := by
  have hhashes : ∀ a ∈ Output.ofOneOwner, ∀ b ∈ Output.ofOneOwner,
      Hash.hash160 a.script = Hash.hash160 b.script → a.script = b.script := by decide +kernel
  have hinj := Collateral.injOn_scripts_paying hhashes
  have hhash : Destination.ofScript?
      (Destination.payToKeyHash (Hash.hash160 Destination.sampleKey)) =
        some (.keyHash (Hash.hash160 Destination.sampleKey)) := Destination.ofScript?_payToKeyHash _
  have hkey : Destination.ofScript? (Destination.payToKey Destination.sampleKey) =
      some (.keyHash (Hash.hash160 Destination.sampleKey)) :=
    Destination.ofScript?_cons_append (by decide)
  obtain ⟨-, -, htotal, -, hperm⟩ := memory_changes_nothing (.paying Output.ofOneOwner)
    (Hash.hash160 Destination.sampleKey) [.atIndex 1, .atIndex 0, .atIndex 1] (hinj _)
  obtain ⟨-, hfails, -⟩ := memory_changes_nothing (.paying Output.ofOneOwner)
    (Hash.hash160 Destination.sampleKey) [.atIndex 1, .atIndex 1, .atIndex 2, .atIndex 0] (hinj _)
  have hsum := (htotal 0xffff_ffff_ffff_ffff).mpr
    ⟨_, .cons ⟨_, rfl, rfl⟩ (.cons ⟨_, rfl, rfl⟩ (.cons ⟨_, rfl, rfl⟩ .nil)),
      by simp [hhash, hkey], by decide⟩
  refine ⟨hhashes, hsum, (hperm _ (.swap _ _ _) _).mpr hsum, (hfails _).mpr ?_⟩
  have howned : Collateral.Owned (.paying Output.ofOneOwner)
      (Hash.hash160 Destination.sampleKey) (.atIndex 1) := ⟨_, ⟨_, rfl, rfl⟩, hkey⟩
  exact ⟨[.atIndex 1, .atIndex 1], .atIndex 2, [.atIndex 0], rfl, by simp [howned],
    .outOfRange rfl rfl⟩

end NodeAdmission
