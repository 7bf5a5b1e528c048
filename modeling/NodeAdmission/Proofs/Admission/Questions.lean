import Mathlib.Data.List.Nodup
import NodeAdmission.Proofs.Admission.Pings
/-!
# What judging asks of the chain

Anyone can send a record or a ping, and every question to the chain costs its receiver work. This
module says which questions are asked on the way to a verdict, whatever the verdict is.

A record raises one question about a block. Its outpoints are looked up only after it has earned
that (`NodeRecord.EarnsLookups`): all that can be checked without a look-up has been checked by
then. They are looked up in order and no further than to the first that fails
(`Collateral.LookedUp`). A ping raises one more question about a block, and the questions of its
record only after it has earned those (`Ping.EarnsRecord`).

The memory of scripts matters here too: an output that does not pay the owner passes if its script
has the identity of an earlier one. So whether an outpoint fails depends on those before it, and the
invariant of the walk is that the memory holds just their identities (`Collateral.Remembers`).
-/

namespace NodeAdmission

/-! ## Questions of an audit in two parts -/

namespace Audit

variable {α β : Type}

@[simp] theorem queries_ofExcept (outcome : Except Rejection α) :
    (ofExcept outcome).queries = [] := rfl

@[simp] theorem queries_require (condition : Bool) (reason : Rejection) :
    (require condition reason).queries = [] := by
  cases condition <;> rfl

@[simp] theorem queries_signerOf (hash : Hash) (signature : List UInt8) :
    (signerOf hash signature).queries = [] := by
  rw [signerOf]
  split <;> rfl

/-- Where the first part answers, the questions of the rest follow. -/
theorem queries_bind_of_ok {m : Audit α} {f : α → Audit β} {a : α} (h : m.outcome = .ok a) :
    (m >>= f).queries = m.queries ++ (f a).queries := by
  obtain ⟨_, qs⟩ := m
  cases h
  rfl

/-- Where the rest asks nothing, or is not reached, there are the questions of the first part. -/
theorem queries_bind_eq_left {m : Audit α} {f : α → Audit β}
    (h : ∀ a, m.outcome = .ok a → (f a).queries = []) : (m >>= f).queries = m.queries := by
  rcases m with ⟨_ | a, qs⟩
  · rfl
  · rw [ok_bind, h a rfl, List.append_nil]

/-- An audit asks nothing if no part of it that is reached does. -/
theorem queries_bind_eq_nil_iff {m : Audit α} {f : α → Audit β} :
    (m >>= f).queries = [] ↔
      m.queries = [] ∧ ∀ a, m.outcome = .ok a → (f a).queries = [] := by
  rcases m with ⟨_ | a, qs⟩ <;> simp

end Audit

/-! ## Looking up the collateral -/

namespace Collateral

variable {chain : ChainAccess} {owner : KeyId} {before os looked : List OutPoint} {o : OutPoint}

/-- After those before it, an outpoint fails: it leads to no output, or to one that does not pay the
owner and whose script has not the identity of an earlier one. -/
def Fails (chain : ChainAccess) (owner : KeyId) (before : List OutPoint) (o : OutPoint) : Prop :=
  ∀ out, chain.Resolves o out → paysOwner owner out.script = false ∧
    ∀ e ∈ before, ∀ out', chain.Resolves e out' →
      Hash.hash160 out'.script ≠ Hash.hash160 out.script

/-- None of the outpoints fails after those before it. -/
def Passes (chain : ChainAccess) (owner : KeyId) (os : List OutPoint) : Prop :=
  ∀ before o after, os = before ++ o :: after → ¬Fails chain owner before o

/-- What is looked up of a list of outpoints: all of it if none fails, and otherwise what stands
before the first that fails, and that one. -/
def LookedUp (chain : ChainAccess) (owner : KeyId) (os looked : List OutPoint) : Prop :=
  (looked = os ∧ Passes chain owner os) ∨
    ∃ before o after, os = before ++ o :: after ∧ Passes chain owner before ∧
      Fails chain owner before o ∧ looked = before ++ [o]

theorem Passes.nil : Passes chain owner [] := by
  intro before o after h
  simp at h

theorem Passes.concat (h : Passes chain owner before) (ho : ¬Fails chain owner before o) :
    Passes chain owner (before ++ [o]) := by
  intro earlier p after hsplit
  rcases List.eq_nil_or_concat after with rfl | ⟨after, q, rfl⟩
  · obtain ⟨rfl, hp⟩ := List.append_inj' hsplit rfl
    cases hp
    exact ho
  · have hsplit' : before ++ [o] = (earlier ++ p :: after) ++ [q] := by
      rw [hsplit, List.append_assoc, List.cons_append, List.concat_eq_append]
    exact h earlier p after (List.append_inj' hsplit' rfl).1

theorem LookedUp.isPrefix (h : LookedUp chain owner os looked) : looked <+: os := by
  rcases h with ⟨rfl, -⟩ | ⟨before, o, after, rfl, -, -, rfl⟩
  · exact List.prefix_rfl
  · exact ⟨after, by rw [List.append_assoc, List.singleton_append]⟩

/-- The memory holds the identities of the scripts that some outpoints lead to, and no others. -/
def Remembers (chain : ChainAccess) (before : List OutPoint) (trusted : List KeyId) : Prop :=
  ∀ id, id ∈ trusted ↔ ∃ e ∈ before, ∃ out, chain.Resolves e out ∧ Hash.hash160 out.script = id

theorem Remembers.nil : Remembers chain [] [] := by
  intro id
  simp

/-- Whether the identity of the next script is new or not, it is in the memory afterwards. -/
theorem Remembers.concat {trusted trusted' : List KeyId} {out : Output}
    (h : Remembers chain before trusted) (hout : chain.Resolves o out)
    (htrusted : ∀ id, id ∈ trusted' ↔ id ∈ trusted ∨ id = Hash.hash160 out.script) :
    Remembers chain (before ++ [o]) trusted' := by
  intro id
  have hlast : (∃ out', chain.Resolves o out' ∧ Hash.hash160 out'.script = id) ↔
      id = Hash.hash160 out.script := by
    constructor
    · rintro ⟨out', hout', rfl⟩
      rw [hout.unique hout']
    · rintro rfl
      exact ⟨out, hout, rfl⟩
  simp only [htrusted, h id, List.mem_append, List.mem_singleton, or_and_right, exists_or,
    exists_eq_left, hlast]

/-- Where the memory is right, an outpoint that leads to an output fails exactly if the identity of
its script is not remembered and the output does not pay the owner. -/
theorem Remembers.fails_iff {trusted : List KeyId} {out : Output}
    (h : Remembers chain before trusted) (hout : chain.Resolves o out) :
    Fails chain owner before o ↔
      Hash.hash160 out.script ∉ trusted ∧ paysOwner owner out.script = false := by
  rw [h]
  constructor
  · intro hfails
    obtain ⟨hpays, hnew⟩ := hfails out hout
    refine ⟨?_, hpays⟩
    rintro ⟨e, he, out', hout', hid⟩
    exact hnew e he out' hout' hid
  · rintro ⟨hnew, hpays⟩ out' hout'
    obtain rfl := hout.unique hout'
    exact ⟨hpays, fun e he out' hout' hid ↦ hnew ⟨e, he, out', hout', hid⟩⟩

theorem queries_verifyFrom_of_not_resolves {trusted : List KeyId} {total : Amount}
    (h : ∀ out, ¬chain.Resolves o out) :
    (verifyFrom chain owner total trusted (o :: os)).queries = [.output o] := by
  rw [verifyFrom, Audit.queries_bind_of_ok (Audit.outcome_askOutput chain o)]
  cases htx : chain.lookup o with
  | none => rfl
  | some tx =>
    cases hindex : tx.output? o.index with
    | none => simp [Audit.askOutput, Audit.get?, Audit.reject, Audit.ofExcept, hindex]
    | some out => exact absurd ⟨tx, htx, hindex⟩ (h out)

/-- The three ways on from an output that is there. -/
theorem queries_verifyFrom_of_resolves {trusted : List KeyId} {total : Amount} {out : Output}
    (h : chain.Resolves o out) :
    (verifyFrom chain owner total trusted (o :: os)).queries =
      .output o ::
        if Hash.hash160 out.script ∈ trusted then
          (verifyFrom chain owner (saturatingAdd total out.value) trusted os).queries
        else if paysOwner owner out.script then
          (verifyFrom chain owner (saturatingAdd total out.value)
            (Hash.hash160 out.script :: trusted) os).queries
        else [] := by
  obtain ⟨tx, htx, hindex⟩ := h
  rw [verifyFrom, Audit.queries_bind_of_ok (Audit.outcome_askOutput chain o), htx]
  simp only [Audit.get?, hindex, pure_bind]
  by_cases hmem : Hash.hash160 out.script ∈ trusted
  · rw [if_pos hmem, if_pos hmem]
    rfl
  · rw [if_neg hmem, if_neg hmem]
    cases paysOwner owner out.script <;> rfl

/-- One step of the walk: it ends at an outpoint that fails, and otherwise goes on with a memory
that is right again. -/
theorem queries_verifyFrom_cons {trusted : List KeyId} (total : Amount)
    (h : Remembers chain before trusted) :
    (Fails chain owner before o ∧
      (verifyFrom chain owner total trusted (o :: os)).queries = [.output o]) ∨
    (¬Fails chain owner before o ∧ ∃ total' trusted', Remembers chain (before ++ [o]) trusted' ∧
      (verifyFrom chain owner total trusted (o :: os)).queries =
        .output o :: (verifyFrom chain owner total' trusted' os).queries) := by
  by_cases hthere : ∃ out, chain.Resolves o out
  · obtain ⟨out, hout⟩ := hthere
    rw [h.fails_iff hout, queries_verifyFrom_of_resolves hout]
    by_cases hmem : Hash.hash160 out.script ∈ trusted
    · have hkept : ∀ id, id ∈ trusted ↔ id ∈ trusted ∨ id = Hash.hash160 out.script :=
        fun id ↦ (or_iff_left_of_imp fun hid ↦ hid ▸ hmem).symm
      exact .inr ⟨fun hfails ↦ hfails.1 hmem, _, _, h.concat hout hkept, by rw [if_pos hmem]⟩
    · rw [if_neg hmem]
      cases hpays : paysOwner owner out.script with
      | true =>
        have hadded : ∀ id, id ∈ Hash.hash160 out.script :: trusted ↔
            id ∈ trusted ∨ id = Hash.hash160 out.script :=
          fun id ↦ List.mem_cons.trans or_comm
        exact .inr ⟨fun hfails ↦ Bool.noConfusion hfails.2, _, _, h.concat hout hadded, rfl⟩
      | false => exact .inl ⟨⟨hmem, rfl⟩, rfl⟩
  · have hnone : ∀ out, ¬chain.Resolves o out := not_exists.mp hthere
    exact .inl ⟨fun out hout ↦ absurd hout (hnone out), queries_verifyFrom_of_not_resolves hnone⟩

/-- The rest of the walk, after outpoints that passed. By induction on what is left of the list. -/
theorem exists_queries_verifyFrom {trusted : List KeyId} {total : Amount}
    (h : Remembers chain before trusted) (hbefore : Passes chain owner before) :
    ∃ looked, (verifyFrom chain owner total trusted os).queries = looked.map .output ∧
      LookedUp chain owner (before ++ os) (before ++ looked) := by
  induction os generalizing before trusted total with
  | nil => exact ⟨[], rfl, .inl ⟨rfl, by rwa [List.append_nil]⟩⟩
  | cons o os ih =>
    obtain ⟨hfails, hqueries⟩ | ⟨hpasses, total', trusted', h', hqueries⟩ :=
      queries_verifyFrom_cons total h
    · exact ⟨[o], hqueries, .inr ⟨before, o, os, rfl, hbefore, hfails, rfl⟩⟩
    · obtain ⟨looked, hrest, hlooked⟩ := ih h' (hbefore.concat hpasses)
      refine ⟨o :: looked, by rw [hqueries, hrest, List.map_cons], ?_⟩
      simpa using hlooked

theorem exists_queries_verify (chain : ChainAccess) (owner : KeyId) (os : List OutPoint) :
    ∃ looked, (verify chain owner os).queries = looked.map .output ∧
      LookedUp chain owner os looked :=
  exists_queries_verifyFrom .nil .nil

end Collateral

/-! ## Records -/

/-- Checks what a staked registration says by itself, and finds who signed it. -/
def Registration.judgeForm (maxCount : UInt64) (r : Registration) : Audit KeyId := do
  Audit.require (r.paymentKeyHash ≠ .zero 20) .missingPaymentKeyHash
  Audit.ofExcept (Collateral.checkSet r.collateral maxCount)
  Audit.signerOf r.sigHash r.signature

namespace Registration

variable {chain : ChainAccess} {params : StakeParams} {r : Registration} {maxCount : UInt64}

theorem judgeStaked_eq_judgeForm_bind {required : Amount} :
    r.judgeStaked chain maxCount required =
      r.judgeForm maxCount >>= fun owner ↦
        Collateral.verify chain owner r.collateral >>= fun total ↦
          Audit.require (required ≤ total) (.insufficientStake total required) := by
  simp only [judgeStaked, judgeForm, bind_assoc]

theorem queries_judgeForm : (r.judgeForm maxCount).queries = [] := by
  simp [judgeForm, Audit.queries_bind_eq_nil_iff]

theorem outcome_judgeForm_eq_ok_iff {owner : KeyId} :
    (r.judgeForm maxCount).outcome = .ok owner ↔
      r.paymentKeyHash ≠ .zero 20 ∧
        (r.collateral.Nodup ∧ 1 ≤ r.collateral.length ∧ r.collateral.length ≤ maxCount.toNat) ∧
        ∃ key, recoverCompact r.sigHash r.signature = .ok key ∧ key.keyId = owner := by
  rw [← Collateral.checkSet_eq_ok_iff, ← Audit.outcome_signerOf_eq_ok_iff]
  simp [judgeForm, Audit.outcome_unit_bind_eq_ok_iff]

theorem queries_judgeStaked_of_judgeForm {required : Amount} {owner : KeyId}
    (h : (r.judgeForm maxCount).outcome = .ok owner) :
    (r.judgeStaked chain maxCount required).queries =
      (Collateral.verify chain owner r.collateral).queries := by
  rw [judgeStaked_eq_judgeForm_bind, Audit.queries_bind_of_ok h, queries_judgeForm, List.nil_append]
  exact Audit.queries_bind_eq_left fun total _ ↦ Audit.queries_require ..

theorem queries_judgeTier_eq_nil
    (h : r.tier = .spv → ∀ owner, (r.judgeForm params.maxCollateralCount).outcome ≠ .ok owner) :
    (r.judgeTier chain params).queries = [] := by
  rw [judgeTier]
  cases htier : r.tier with
  | free => simp [Tier.policy?, Audit.get?, judgeSelfSigned, Audit.queries_bind_eq_nil_iff]
  | spv =>
    simp [Tier.policy?, Audit.get?, judgeStaked_eq_judgeForm_bind, Audit.queries_bind_eq_nil_iff,
      queries_judgeForm, h htier]
  | unrecognized b => rfl

end Registration

/-- What a record must meet before its collateral is looked up for an owner. -/
structure NodeRecord.EarnsLookups (chain : ChainAccess) (params : StakeParams) (enforce : Bool)
    (n : NodeRecord) (owner : KeyId) : Prop where
  /-- The last block seen is accepted. -/
  anchor : chain.checkAnchor n.lastSeen enforce = true
  /-- The key is a point of the curve. -/
  key : n.key.isFullyValid = true
  /-- The tier is the staked one. -/
  tier : n.registration.tier = .spv
  /-- The registration says where to pay. -/
  payment : n.registration.paymentKeyHash ≠ .zero 20
  /-- No outpoint is listed twice. -/
  nodup : n.registration.collateral.Nodup
  /-- Some outpoint is listed. -/
  nonempty : 1 ≤ n.registration.collateral.length
  /-- No more outpoints are listed than are allowed. -/
  count : n.registration.collateral.length ≤ params.maxCollateralCount.toNat
  /-- The signature is one of the owner. -/
  signer : ∃ key,
    recoverCompact n.registration.sigHash n.registration.signature = .ok key ∧ key.keyId = owner

namespace NodeRecord

variable {chain : ChainAccess} {params : StakeParams} {enforce : Bool} {n : NodeRecord}
  {owner : KeyId}

theorem earnsLookups_iff :
    n.EarnsLookups chain params enforce owner ↔
      chain.checkAnchor n.lastSeen enforce = true ∧ n.key.isFullyValid = true ∧
        n.registration.tier = .spv ∧
        (n.registration.judgeForm params.maxCollateralCount).outcome = .ok owner := by
  rw [Registration.outcome_judgeForm_eq_ok_iff]
  constructor
  · rintro ⟨hanchor, hkey, htier, hpay, hnodup, hpos, hcount, hsigner⟩
    exact ⟨hanchor, hkey, htier, hpay, ⟨hnodup, hpos, hcount⟩, hsigner⟩
  · rintro ⟨hanchor, hkey, htier, hpay, ⟨hnodup, hpos, hcount⟩, hsigner⟩
    exact ⟨hanchor, hkey, htier, hpay, hnodup, hpos, hcount, hsigner⟩

theorem queries_judge_of_earnsLookups (h : n.EarnsLookups chain params enforce owner) :
    (n.judge chain params enforce).queries =
      .anchor n.lastSeen enforce ::
        (Collateral.verify chain owner n.registration.collateral).queries := by
  obtain ⟨hanchor, hkey, htier, hform⟩ := earnsLookups_iff.mp h
  have hqueries : (n.registration.judgeTier chain params).queries =
      (Collateral.verify chain owner n.registration.collateral).queries := by
    rw [Registration.judgeTier, htier]
    exact Registration.queries_judgeStaked_of_judgeForm hform
  simp [judge, Audit.askAnchor, Audit.require, hanchor, hkey, hqueries]

theorem queries_judge_of_not_earnsLookups
    (h : ¬∃ owner, n.EarnsLookups chain params enforce owner) :
    (n.judge chain params enforce).queries = [.anchor n.lastSeen enforce] := by
  have hrest : chain.checkAnchor n.lastSeen enforce = true → n.key.isFullyValid = true →
      (n.registration.judgeTier chain params).queries = [] := by
    intro hanchor hkey
    refine Registration.queries_judgeTier_eq_nil fun htier owner hform ↦ h ⟨owner, ?_⟩
    exact earnsLookups_iff.mpr ⟨hanchor, hkey, htier, hform⟩
  rw [judge, Audit.queries_bind_of_ok (Audit.outcome_askAnchor ..)]
  refine congrArg (Query.anchor n.lastSeen enforce :: ·) ?_
  simpa [Audit.queries_bind_eq_nil_iff] using hrest

/-- What a record asks: about one block, and then about as much of its collateral as it has
earned. -/
theorem exists_queries_judge (chain : ChainAccess) (params : StakeParams) (enforce : Bool)
    (n : NodeRecord) :
    ∃ looked : List OutPoint,
      (n.judge chain params enforce).queries =
        .anchor n.lastSeen enforce :: looked.map .output ∧
      looked <+: n.registration.collateral ∧ looked.Nodup ∧
      looked.length ≤ params.maxCollateralCount.toNat ∧
      ((looked = [] ∧ ¬∃ owner, n.EarnsLookups chain params enforce owner) ∨
        ∃ owner, n.EarnsLookups chain params enforce owner ∧
          Collateral.LookedUp chain owner n.registration.collateral looked) := by
  by_cases hearns : ∃ owner, n.EarnsLookups chain params enforce owner
  · obtain ⟨owner, howner⟩ := hearns
    obtain ⟨looked, hqueries, hlooked⟩ :=
      Collateral.exists_queries_verify chain owner n.registration.collateral
    have hinitial : looked <+: n.registration.collateral := hlooked.isPrefix
    refine ⟨looked, ?_, hinitial, howner.nodup.sublist hinitial.sublist,
      hinitial.length_le.trans howner.count, .inr ⟨owner, howner, hlooked⟩⟩
    rw [queries_judge_of_earnsLookups howner, hqueries]
  · exact ⟨[], queries_judge_of_not_earnsLookups hearns, List.nil_prefix, List.nodup_nil,
      Nat.zero_le _, .inl ⟨rfl, hearns⟩⟩

theorem nodup_queries_judge : (n.judge chain params enforce).queries.Nodup := by
  obtain ⟨looked, hqueries, -, hnodup, -⟩ := n.exists_queries_judge chain params enforce
  rw [hqueries, List.nodup_cons]
  exact ⟨by simp, hnodup.map fun _ _ h ↦ Query.output.inj h⟩

end NodeRecord

/-! ## Pings -/

/-- What a ping must meet before the record that it carries is judged. -/
structure Ping.EarnsRecord (chain : ChainAccess) (p : Ping) : Prop where
  /-- The block of the ping is accepted as a recent one. -/
  anchor : chain.checkAnchor p.anchor true = true
  /-- The key is a point of the curve. -/
  key : p.key.isFullyValid = true
  /-- The record is one of the same node. -/
  sameKey : p.key = p.record.key
  /-- The strict reading accepts the config. -/
  config : ∃ c, Capabilities.parse p.config = .ok c
  /-- The node signed the ping. -/
  signer : ∃ key, recoverCompact p.sigHash p.signature = .ok key ∧ key.keyId = p.key.keyId

namespace Ping

variable {chain : ChainAccess} {params : StakeParams} {p : Ping}

theorem earnsRecord_iff :
    p.EarnsRecord chain ↔ (p.judgeEnvelope chain).outcome = .ok () := by
  rw [outcome_judgeEnvelope_eq_ok_iff]
  constructor
  · rintro ⟨hanchor, hkey, hsame, hconfig, hsigner⟩
    exact ⟨hanchor, hkey, hsame, hconfig, hsigner⟩
  · rintro ⟨hanchor, hkey, hsame, hconfig, hsigner⟩
    exact ⟨hanchor, hkey, hsame, hconfig, hsigner⟩

theorem queries_judgeEnvelope : (p.judgeEnvelope chain).queries = [.anchor p.anchor true] := by
  rw [judgeEnvelope, Audit.queries_bind_of_ok (Audit.outcome_askAnchor ..)]
  refine congrArg (Query.anchor p.anchor true :: ·) ?_
  simp [Audit.queries_bind_eq_nil_iff]

theorem queries_judge_of_earnsRecord (h : p.EarnsRecord chain) :
    (p.judge chain params).queries =
      .anchor p.anchor true :: (p.record.judge chain params false).queries := by
  rw [judge_eq_judgeEnvelope_bind, Audit.queries_bind_of_ok (earnsRecord_iff.mp h),
    queries_judgeEnvelope, List.singleton_append]

theorem queries_judge_of_not_earnsRecord (h : ¬p.EarnsRecord chain) :
    (p.judge chain params).queries = [.anchor p.anchor true] := by
  have hrest : ∀ u, (p.judgeEnvelope chain).outcome = .ok u →
      (p.record.judge chain params false).queries = [] :=
    fun () hok ↦ absurd (earnsRecord_iff.mpr hok) h
  rw [judge_eq_judgeEnvelope_bind, Audit.queries_bind_eq_left hrest, queries_judgeEnvelope]

/-- The block of the ping is asked about as a recent one, which that of the record is not. -/
theorem nodup_queries_judge : (p.judge chain params).queries.Nodup := by
  by_cases hearns : p.EarnsRecord chain
  · rw [queries_judge_of_earnsRecord hearns, List.nodup_cons]
    refine ⟨?_, NodeRecord.nodup_queries_judge⟩
    obtain ⟨looked, hqueries, -⟩ := p.record.exists_queries_judge chain params false
    simp [hqueries]
  · rw [queries_judge_of_not_earnsRecord hearns]
    exact List.nodup_singleton _

end Ping

/-! ## All questions -/

/-- **Look-ups are bounded and have to be earned.** Whatever the verdict is, a record asks first,
and once, about the last block that its node has seen. It goes on to look up outpoints only if it
has earned that; then it looks them up in order, to the first that fails or to the last, and so none
twice and no more than are allowed. A ping asks first about its own block, as a recent one, and then
either nothing or, if it has earned that, what its record asks. No question is asked twice on the
way to a verdict, so it makes no difference whether the chain would give the same answer again. -/
theorem lookups_bounded_and_earned (chain : ChainAccess) (params : StakeParams) :
    (∀ (n : NodeRecord) (enforce : Bool),
      (n.judge chain params enforce).queries.Nodup ∧
      ∃ looked : List OutPoint,
        (n.judge chain params enforce).queries =
          .anchor n.lastSeen enforce :: looked.map .output ∧
        looked <+: n.registration.collateral ∧ looked.Nodup ∧
        looked.length ≤ params.maxCollateralCount.toNat ∧
        ((looked = [] ∧ ¬∃ owner, n.EarnsLookups chain params enforce owner) ∨
          ∃ owner, n.EarnsLookups chain params enforce owner ∧
            Collateral.LookedUp chain owner n.registration.collateral looked)) ∧
    ∀ p : Ping,
      (p.judge chain params).queries.Nodup ∧
      ((¬p.EarnsRecord chain ∧ (p.judge chain params).queries = [.anchor p.anchor true]) ∨
        (p.EarnsRecord chain ∧ (p.judge chain params).queries =
          .anchor p.anchor true :: (p.record.judge chain params false).queries)) := by
  refine ⟨fun n enforce ↦ ?_, fun p ↦ ?_⟩
  · exact ⟨NodeRecord.nodup_queries_judge, n.exists_queries_judge chain params enforce⟩
  · refine ⟨Ping.nodup_queries_judge, ?_⟩
    by_cases hearns : p.EarnsRecord chain
    · exact .inr ⟨hearns, Ping.queries_judge_of_earnsRecord hearns⟩
    · exact .inl ⟨hearns, Ping.queries_judge_of_not_earnsRecord hearns⟩

end NodeAdmission
