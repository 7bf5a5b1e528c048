import Mathlib.Algebra.GroupWithZero.Nat
import Mathlib.Data.List.Forall2
import Mathlib.Data.Set.Function
import NodeAdmission.Admission.Collateral
/-!
# The stake behind a list of outpoints

Checking collateral remembers scripts and stops adding at the largest amount. Neither shows in the
answer. `verifyEach` is the same walk without the memory, and `verifyFrom_eq_verifyEachFrom` says
that the two are one. `exactTotal` adds up in `ℕ`, and `outcome_verifyEachFrom` says that cutting
every sum on the way is cutting once at the end.

## The invariant of the memory

A remembered identity is the identity of a script that was found to pay the owner. So a script with
a remembered identity pays the owner too, *if* the identity of a script in play tells whether it
does (`IdentityTells`). That is so if no two of the scripts have one identity, and also if all of
them pay the owner; it is the only place where a collision of hashes could let a foreign output
through.
-/

namespace NodeAdmission

/-- The outpoint leads to a known transaction that has this output at its position. -/
def ChainAccess.Resolves (chain : ChainAccess) (o : OutPoint) (out : Output) : Prop :=
  ∃ tx, chain.lookup o = some tx ∧ tx.output? o.index = some out

theorem ChainAccess.Resolves.unique {chain : ChainAccess} {o : OutPoint} {out out' : Output}
    (h : chain.Resolves o out) (h' : chain.Resolves o out') : out = out' := by
  obtain ⟨tx, htx, hout⟩ := h
  obtain ⟨tx', htx', hout'⟩ := h'
  rw [htx, Option.some.injEq] at htx'
  rw [← htx', hout, Option.some.injEq] at hout'
  exact hout'

namespace Collateral

variable {chain : ChainAccess} {owner : KeyId}

/-! ## The list by itself -/

theorem firstRepeat?_eq_none_iff {seen os : List OutPoint} :
    firstRepeat? seen os = none ↔ os.Nodup ∧ ∀ o ∈ os, o ∉ seen := by
  induction os generalizing seen with
  | nil => simp [firstRepeat?]
  | cons o os ih =>
    rw [firstRepeat?]
    by_cases ho : o ∈ seen
    · rw [if_pos ho]
      simp [ho]
    · rw [if_neg ho, ih, List.nodup_cons]
      constructor
      · rintro ⟨hnd, hnot⟩
        have hhead : o ∉ os := fun h ↦ hnot o h List.mem_cons_self
        refine ⟨⟨hhead, hnd⟩, List.forall_mem_cons.mpr ⟨ho, fun p hp hseen ↦ ?_⟩⟩
        exact hnot p hp (List.mem_cons_of_mem o hseen)
      · rintro ⟨⟨hhead, hnd⟩, hnot⟩
        refine ⟨hnd, fun p hp hseen ↦ ?_⟩
        rcases List.mem_cons.mp hseen with rfl | hseen
        · exact hhead hp
        · exact hnot p (List.mem_cons_of_mem o hp) hseen

theorem checkSet_eq_ok_iff {os : List OutPoint} {max : UInt64} :
    checkSet os max = .ok () ↔ os.Nodup ∧ 1 ≤ os.length ∧ os.length ≤ max.toNat := by
  have hempty : os.isEmpty = true ↔ ¬1 ≤ os.length := by cases os <;> simp
  rw [checkSet]
  by_cases hcount : os.isEmpty ∨ max.toNat < os.length
  · rw [if_pos hcount]
    refine ⟨fun h ↦ by simp at h, fun ⟨_, hpos, hle⟩ ↦ ?_⟩
    rcases hcount with h | h
    · exact absurd hpos (hempty.mp h)
    · exact absurd hle (Nat.not_le.mpr h)
  · rw [if_neg hcount]
    obtain ⟨hne, hle⟩ := not_or.mp hcount
    have hnodup : firstRepeat? [] os = none ↔ os.Nodup := by simp [firstRepeat?_eq_none_iff]
    cases hrep : firstRepeat? [] os with
    | none => simp [hnodup.mp hrep, not_not.mp (mt hempty.mpr hne), Nat.not_lt.mp hle]
    | some o => simp [← hnodup, hrep]

/-! ## One output -/

theorem paysOwner_iff {script : List UInt8} :
    paysOwner owner script = true ↔ Destination.ofScript? script = some (.keyHash owner) := by
  rw [paysOwner, beq_iff_eq]
  cases h : Destination.ofScript? script with
  | none => simp
  | some d => cases d <;> simp [Destination.keyHash?]

/-- The value that an outpoint adds to the stake of the owner, or why it adds none. -/
def ownedValue (chain : ChainAccess) (owner : KeyId) (o : OutPoint) : Except Rejection ℕ :=
  match chain.lookup o with
  | none => .error (.unresolvableOrSpentCollateral o)
  | some tx =>
    match tx.output? o.index with
    | none => .error (.collateralIndexOutOfRange o)
    | some out =>
      if Destination.ofScript? out.script = some (.keyHash owner) then .ok out.value.toNat
      else .error (.destinationMismatch o)

theorem ownedValue_eq_ok_iff {o : OutPoint} {v : ℕ} :
    ownedValue chain owner o = .ok v ↔
      ∃ out, chain.Resolves o out ∧ Destination.ofScript? out.script = some (.keyHash owner) ∧
        out.value.toNat = v := by
  simp only [ChainAccess.Resolves]
  rw [ownedValue]
  split
  · next h => simp [h]
  · next tx h =>
    split
    · next hout => simp [h, hout]
    · next out hout =>
      by_cases hpays : Destination.ofScript? out.script = some (.keyHash owner)
      · simp [h, hout, hpays]
      · simp [h, hout, hpays]

/-! ## The whole list -/

/-- The value of the owner's outputs, every one of which must be there and pay the owner. -/
def exactTotal (chain : ChainAccess) (owner : KeyId) : List OutPoint → Except Rejection ℕ
  | [] => .ok 0
  | o :: os => do
    let v ← ownedValue chain owner o
    let sum ← exactTotal chain owner os
    return v + sum

theorem exactTotal_cons (o : OutPoint) (os : List OutPoint) :
    exactTotal chain owner (o :: os) =
      ownedValue chain owner o >>= fun v ↦ (exactTotal chain owner os).map (v + ·) := by
  rw [exactTotal]
  cases ownedValue chain owner o with
  | error e => rfl
  | ok v => cases exactTotal chain owner os <;> rfl

theorem exactTotal_eq_ok_iff {os : List OutPoint} {sum : ℕ} :
    exactTotal chain owner os = .ok sum ↔
      ∃ outs, List.Forall₂ chain.Resolves os outs ∧
        (∀ out ∈ outs, Destination.ofScript? out.script = some (.keyHash owner)) ∧
        (outs.map fun out ↦ out.value.toNat).sum = sum := by
  induction os generalizing sum with
  | nil => simp [exactTotal]
  | cons o os ih =>
    have hcons : exactTotal chain owner (o :: os) = .ok sum ↔
        ∃ v rest, ownedValue chain owner o = .ok v ∧ exactTotal chain owner os = .ok rest ∧
          v + rest = sum := by
      rw [exactTotal_cons]
      cases ownedValue chain owner o with
      | error e => simp [bind, Except.bind]
      | ok v => cases exactTotal chain owner os <;> simp [bind, Except.bind, Except.map]
    rw [hcons]
    constructor
    · rintro ⟨v, rest, hv, hrest, rfl⟩
      obtain ⟨out, hres, hpays, rfl⟩ := ownedValue_eq_ok_iff.mp hv
      obtain ⟨outs, houts, hall, rfl⟩ := ih.mp hrest
      exact ⟨out :: outs, .cons hres houts, List.forall_mem_cons.mpr ⟨hpays, hall⟩, rfl⟩
    · rintro ⟨_, hlist, hall, rfl⟩
      obtain ⟨out, outs, hres, houts, rfl⟩ := List.forall₂_cons_left_iff.mp hlist
      obtain ⟨hpays, hall⟩ := List.forall_mem_cons.mp hall
      exact ⟨_, _, ownedValue_eq_ok_iff.mpr ⟨out, hres, hpays, rfl⟩,
        ih.mpr ⟨outs, houts, hall, rfl⟩, rfl⟩

/-! ## Sums that stop at the largest amount -/

/-- A sum as an amount: the largest amount stands for all that is beyond it. -/
def cut (sum : ℕ) : Amount := UInt64.ofNat (min sum (UInt64.size - 1))

theorem toNat_cut (sum : ℕ) : (cut sum).toNat = min sum (UInt64.size - 1) := by
  have hlt : min sum (UInt64.size - 1) < UInt64.size := by
    have : 0 < UInt64.size := by decide
    omega
  rw [cut, UInt64.toNat_ofNat_of_lt' hlt]

@[simp] theorem cut_toNat (a : Amount) : cut a.toNat = a := by
  have ha : a.toNat < UInt64.size := a.toNat_lt_size
  rw [← UInt64.toNat_inj, toNat_cut]
  omega

/-- Cutting on the way makes no difference to cutting at the end. -/
theorem cut_saturatingAdd_add (a b : Amount) (sum : ℕ) :
    cut ((saturatingAdd a b).toNat + sum) = cut (a.toNat + (b.toNat + sum)) := by
  rw [← UInt64.toNat_inj, toNat_cut, toNat_cut, toNat_saturatingAdd]
  split <;> omega

/-- An amount reaches a least value exactly when the sum that was cut does. -/
theorem le_cut_iff {required : Amount} {sum : ℕ} :
    required ≤ cut sum ↔ required.toNat ≤ sum := by
  have hr : required.toNat < UInt64.size := required.toNat_lt_size
  rw [UInt64.le_iff_toNat_le, toNat_cut]
  omega

/-! ## The walk without a memory -/

/-- Looks up the outpoints in order and takes every script apart, whether it was seen before or not.
`total` is the value so far. -/
def verifyEachFrom (chain : ChainAccess) (owner : KeyId) (total : Amount) :
    List OutPoint → Audit Amount
  | [] => pure total
  | o :: os => do
    let tx? ← Audit.askOutput chain o
    let tx ← Audit.get? tx? (.unresolvableOrSpentCollateral o)
    let out ← Audit.get? (tx.output? o.index) (.collateralIndexOutOfRange o)
    Audit.require (paysOwner owner out.script) (.destinationMismatch o)
    verifyEachFrom chain owner (saturatingAdd total out.value) os

/-- The value of the outputs, all of which must pay the owner, without a memory of scripts. -/
def verifyEach (chain : ChainAccess) (owner : KeyId) (os : List OutPoint) : Audit Amount :=
  verifyEachFrom chain owner 0 os

/-- One step of the walk without a memory. -/
theorem outcome_verifyEachFrom_cons {o : OutPoint} {os : List OutPoint} {total : Amount} :
    (verifyEachFrom chain owner total (o :: os)).outcome =
      ownedValue chain owner o >>= fun v ↦
        (verifyEachFrom chain owner (saturatingAdd total (cut v)) os).outcome := by
  rw [verifyEachFrom]
  simp only [ownedValue, ← paysOwner_iff, Audit.askOutput, Audit.ok_bind]
  cases htx : chain.lookup o with
  | none => rfl
  | some tx =>
    cases hout : tx.output? o.index with
    | none =>
      simp only [Audit.get?, Audit.pure_def, Audit.ok_bind, hout]
      rfl
    | some out =>
      simp only [Audit.get?, Audit.require, Audit.pure_def, Audit.ok_bind, hout]
      cases paysOwner owner out.script with
      | false => rfl
      | true =>
        change _ = (verifyEachFrom chain owner
          (saturatingAdd total (cut out.value.toNat)) os).outcome
        rw [cut_toNat]
        rfl

/-- What the walk without a memory answers: the exact sum, cut at the largest amount, or the failure
of an outpoint. -/
theorem outcome_verifyEachFrom {os : List OutPoint} {total : Amount} :
    (verifyEachFrom chain owner total os).outcome =
      (exactTotal chain owner os).map fun sum ↦ cut (total.toNat + sum) := by
  induction os generalizing total with
  | nil => simp [verifyEachFrom, exactTotal, Except.map]
  | cons o os ih =>
    rw [outcome_verifyEachFrom_cons, exactTotal_cons]
    cases hvalue : ownedValue chain owner o with
    | error e => rfl
    | ok v =>
      obtain ⟨out, -, -, rfl⟩ := ownedValue_eq_ok_iff.mp hvalue
      change (verifyEachFrom chain owner _ os).outcome = Except.map _ (Except.map _ _)
      rw [ih, cut_toNat]
      cases exactTotal chain owner os with
      | error e => rfl
      | ok sum => exact congrArg Except.ok (cut_saturatingAdd_add total out.value sum)

/-! ## The memory of scripts -/

/-- The scripts of the outputs that a list of outpoints leads to. -/
def scripts (chain : ChainAccess) (os : List OutPoint) : Set (List UInt8) :=
  {s | ∃ o ∈ os, ∃ out, chain.Resolves o out ∧ out.script = s}

/-- Among some scripts, those with one identity all pay the owner or none does. -/
def IdentityTells (owner : KeyId) (S : Set (List UInt8)) : Prop :=
  ∀ s ∈ S, ∀ t ∈ S, Hash.hash160 s = Hash.hash160 t → paysOwner owner s = true →
    paysOwner owner t = true

theorem IdentityTells.of_injOn {S : Set (List UInt8)} (h : S.InjOn Hash.hash160) :
    IdentityTells owner S := by
  intro s hs t ht hid hpays
  rwa [← h hs ht hid]

/-- What a memory of identities holds: identities of scripts, out of some set, that pay the
owner. -/
def Trustworthy (owner : KeyId) (S : Set (List UInt8)) (trusted : List KeyId) : Prop :=
  ∀ id ∈ trusted, ∃ s ∈ S, Hash.hash160 s = id ∧ paysOwner owner s = true

theorem Trustworthy.paysOwner {S : Set (List UInt8)} {trusted : List KeyId}
    (htells : IdentityTells owner S) (h : Trustworthy owner S trusted) {s : List UInt8} (hs : s ∈ S)
    (hmem : Hash.hash160 s ∈ trusted) : Collateral.paysOwner owner s = true := by
  obtain ⟨s', hs', hid, hpays⟩ := h _ hmem
  exact htells s' hs' s hs hid hpays

theorem Trustworthy.cons {S : Set (List UInt8)} {trusted : List KeyId}
    (h : Trustworthy owner S trusted) {s : List UInt8} (hs : s ∈ S)
    (hpays : Collateral.paysOwner owner s = true) :
    Trustworthy owner S (Hash.hash160 s :: trusted) :=
  List.forall_mem_cons.mpr ⟨⟨s, hs, rfl, hpays⟩, h⟩

/-- **The walk with a memory is the walk without one**, answer and questions alike. By induction on
the list; the memory stays trustworthy from one outpoint to the next. -/
theorem verifyFrom_eq_verifyEachFrom {S : Set (List UInt8)} (htells : IdentityTells owner S) :
    ∀ {os : List OutPoint} {total : Amount} {trusted : List KeyId}, scripts chain os ⊆ S →
      Trustworthy owner S trusted →
      verifyFrom chain owner total trusted os = verifyEachFrom chain owner total os := by
  intro os
  induction os with
  | nil =>
    intro total trusted _ _
    rw [verifyFrom, verifyEachFrom]
  | cons o os ih =>
    intro total trusted hsub htrust
    have hrest : scripts chain os ⊆ S :=
      fun s ⟨p, hp, hout⟩ ↦ hsub ⟨p, List.mem_cons_of_mem o hp, hout⟩
    rw [verifyFrom, verifyEachFrom]
    refine Audit.bind_congr fun tx? htx? ↦ Audit.bind_congr fun tx htx ↦
      Audit.bind_congr fun out hout ↦ ?_
    rw [Audit.outcome_get?_eq_ok_iff] at htx hout
    have hlookup : chain.lookup o = some tx := (Except.ok.inj htx?).trans htx
    have hmem : out.script ∈ S :=
      hsub ⟨o, List.mem_cons_self, out, ⟨tx, hlookup, hout⟩, rfl⟩
    by_cases hseen : Hash.hash160 out.script ∈ trusted
    · -- A remembered script would have been found to pay the owner once more.
      rw [if_pos hseen, htrust.paysOwner htells hmem hseen, ih hrest htrust]
      rfl
    · rw [if_neg hseen]
      refine Audit.bind_congr fun _ hpays ↦ ?_
      exact ih hrest (htrust.cons hmem (Audit.outcome_require_eq_ok_iff.mp hpays))

theorem verify_eq_verifyEach {os : List OutPoint}
    (htells : IdentityTells owner (scripts chain os)) :
    verify chain owner os = verifyEach chain owner os :=
  verifyFrom_eq_verifyEachFrom htells subset_rfl fun id hid ↦ absurd hid (by simp)

/-- Checking collateral gives the exact sum, cut at the largest amount, and every failure that the
walk without a memory gives. -/
theorem outcome_verify {os : List OutPoint} (htells : IdentityTells owner (scripts chain os)) :
    (verify chain owner os).outcome = (exactTotal chain owner os).map cut := by
  rw [verify_eq_verifyEach htells, verifyEach, outcome_verifyEachFrom]
  simp

/-! ## Enough stake -/

/-- Every outpoint leads to an output, all these outputs pay the owner, and together they are worth
at least `required`. -/
def Backs (chain : ChainAccess) (owner : KeyId) (required : Amount) (os : List OutPoint) : Prop :=
  ∃ outs, List.Forall₂ chain.Resolves os outs ∧
    (∀ out ∈ outs, Destination.ofScript? out.script = some (.keyHash owner)) ∧
    required.toNat ≤ (outs.map fun out ↦ out.value.toNat).sum

theorem backs_iff {required : Amount} {os : List OutPoint} :
    Backs chain owner required os ↔
      ∃ sum, exactTotal chain owner os = .ok sum ∧ required.toNat ≤ sum := by
  simp only [exactTotal_eq_ok_iff]
  constructor
  · rintro ⟨outs, hres, hpays, hle⟩
    exact ⟨_, ⟨outs, hres, hpays, rfl⟩, hle⟩
  · rintro ⟨_, ⟨outs, hres, hpays, rfl⟩, hle⟩
    exact ⟨outs, hres, hpays, hle⟩

/-- The cut never decides whether there is enough stake. -/
theorem exists_outcome_verify_iff {required : Amount} {os : List OutPoint}
    (htells : IdentityTells owner (scripts chain os)) :
    (∃ total, (verify chain owner os).outcome = .ok total ∧ required ≤ total) ↔
      Backs chain owner required os := by
  rw [outcome_verify htells, backs_iff]
  cases exactTotal chain owner os with
  | error e => simp [Except.map]
  | ok sum => simp [Except.map, le_cut_iff]

/-- Where all outputs pay the owner, no collision of hashes can do harm. -/
theorem Backs.identityTells {required : Amount} {os : List OutPoint}
    (h : Backs chain owner required os) : IdentityTells owner (scripts chain os) := by
  obtain ⟨outs, hres, hpays, -⟩ := h
  rintro s - t ⟨o, ho, out, hout, rfl⟩ - -
  obtain ⟨hlength, hget⟩ := List.forall₂_iff_get.mp hres
  obtain ⟨i, hi, rfl⟩ := List.getElem_of_mem ho
  have hi' : i < outs.length := hlength ▸ hi
  rw [hout.unique (hget i hi hi')]
  exact paysOwner_iff.mpr (hpays _ (List.getElem_mem hi'))

end Collateral

end NodeAdmission
