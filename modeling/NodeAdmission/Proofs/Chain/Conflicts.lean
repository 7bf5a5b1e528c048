import NodeAdmission.Proofs.Chain.Spending
/-!
# Conflicted transactions

Two transactions that spend one outpoint cannot both be confirmed. Once one of them is, the other
one waits in vain, and its outputs will never exist. A view does not see this. Confirming drops the
transaction itself from those that wait, and nothing that conflicts with it; and announcing does not
look at what was spent before. So a conflicted transaction that waits goes on being found.

This is the only case. A transaction that was confirmed is conflicted only if the confirmed
transactions themselves spend an outpoint twice. Where they do not, `no_conflicted_funding_iff` says
which histories lead to no conflicted transaction: those in which none waits that may be found.
-/

namespace NodeAdmission

variable {policy : ViewPolicy} {history : List ChainEvent} {tx : Transaction} {o : OutPoint}

/-! ## Conflicts -/

/-- A confirmed transaction of another hash spends an input of the transaction. -/
def Conflicted (history : List ChainEvent) (tx : Transaction) : Prop :=
  ∃ other ∈ history.filterMap ChainEvent.confirmed?, other.txid ≠ tx.txid ∧
    ∃ o ∈ tx.inputs, o ∈ other.inputs

/-- No two confirmed transactions of different hashes spend the same outpoint. -/
def SpendsOnce (history : List ChainEvent) : Prop :=
  ∀ tx ∈ history.filterMap ChainEvent.confirmed?, ∀ other ∈ history.filterMap ChainEvent.confirmed?,
    other.txid ≠ tx.txid → ∀ o ∈ tx.inputs, o ∉ other.inputs

/-- The transaction is the latest announced one of its hash, and none of its hash was confirmed. -/
def Waits (history : List ChainEvent) (tx : Transaction) : Prop :=
  latest? tx.txid (history.filterMap ChainEvent.confirmed?) = none ∧
    latest? tx.txid (history.filterMap ChainEvent.announced?) = some tx

theorem SpendsOnce.not_conflicted (h : SpendsOnce history)
    (htx : tx ∈ history.filterMap ChainEvent.confirmed?) : ¬Conflicted history tx := by
  rintro ⟨other, hother, hne, o, ho, hspent⟩
  exact h tx htx other hother hne o ho hspent

/-- A single confirmed transaction spends nothing twice. -/
theorem spendsOnce_of_confirmed_eq_singleton
    (h : history.filterMap ChainEvent.confirmed? = [tx]) : SpendsOnce history := by
  intro a ha b hb hne
  rw [h, List.mem_singleton] at ha hb
  exact absurd (congrArg Transaction.txid (hb.trans ha.symm)) hne

namespace View

/-! ## What is found -/

/-- A transaction is found behind its outpoints that are not spent: if it is the latest confirmed
one of its hash, or if it waits and such transactions may be found. -/
theorem lookup_ofHistory_eq_some_iff :
    (ofHistory policy history).lookup o = some tx ↔
      (ofHistory policy history).isSpent o = false ∧ tx.txid = o.txid ∧
        (latest? tx.txid (history.filterMap ChainEvent.confirmed?) = some tx ∨
          policy.allowMempool = true ∧ Waits history tx) := by
  constructor
  · intro h
    have hid := txid_of_lookup_ofHistory h
    rw [lookup_ofHistory, ← hid] at h
    split at h
    · cases h
    · next hspent =>
      refine ⟨Bool.eq_false_iff.mpr hspent, hid, ?_⟩
      rcases Option.or_eq_some_iff.mp h with hconfirmed | ⟨hnone, hwaiting⟩
      · exact .inl hconfirmed
      · split at hwaiting
        · next hallow => exact .inr ⟨hallow, hnone, hwaiting⟩
        · cases hwaiting
  · rintro ⟨hspent, hid, hfound⟩
    rw [lookup_ofHistory, ← hid, hspent, if_neg Bool.false_ne_true, Option.or_eq_some_iff]
    rcases hfound with hconfirmed | ⟨hallow, hnone, hwaiting⟩
    · exact .inl hconfirmed
    · exact .inr ⟨hnone, by rw [if_pos hallow, hwaiting]⟩

/-- Behind an outpoint, the conflicted transactions that are found are those that wait. -/
theorem lookup_conflicted_iff (honce : SpendsOnce history) :
    (ofHistory policy history).lookup o = some tx ∧ Conflicted history tx ↔
      policy.allowMempool = true ∧ (ofHistory policy history).isSpent o = false ∧
        tx.txid = o.txid ∧ Waits history tx ∧ Conflicted history tx := by
  rw [lookup_ofHistory_eq_some_iff]
  constructor
  · rintro ⟨⟨hspent, hid, hconfirmed | ⟨hallow, hwaits⟩⟩, hconflict⟩
    · exact absurd hconflict (honce.not_conflicted (mem_of_latest? hconfirmed).1)
    · exact ⟨hallow, hspent, hid, hwaits, hconflict⟩
  · rintro ⟨hallow, hspent, hid, hwaits, hconflict⟩
    exact ⟨⟨hspent, hid, .inr ⟨hallow, hwaits⟩⟩, hconflict⟩

/-! ## When conflicted transactions fund nothing -/

/-- **Conflicted transactions fund nothing, unless they wait.** Let no two confirmed transactions
spend the same outpoint. Then no confirmed transaction that is found is conflicted, and a history
leads to no conflicted transaction exactly if waiting transactions may not be found, or none of them
that has an unspent outpoint is conflicted. -/
theorem no_conflicted_funding_iff (policy : ViewPolicy) (history : List ChainEvent)
    (honce : SpendsOnce history) :
    (∀ o tx, (ofHistory policy history).lookup o = some tx →
      tx ∈ history.filterMap ChainEvent.confirmed? → ¬Conflicted history tx) ∧
    ((∀ o tx, (ofHistory policy history).lookup o = some tx → ¬Conflicted history tx) ↔
      policy.allowMempool = false ∨
        ∀ o tx, (ofHistory policy history).isSpent o = false → tx.txid = o.txid →
          Waits history tx → ¬Conflicted history tx) := by
  refine ⟨fun o tx _ htx ↦ honce.not_conflicted htx, ?_⟩
  constructor
  · intro h
    cases hallow : policy.allowMempool with
    | false => exact .inl rfl
    | true =>
      refine .inr fun o tx hspent hid hwaits hconflict ↦ ?_
      obtain ⟨hlookup, -⟩ :=
        (lookup_conflicted_iff honce).mpr ⟨hallow, hspent, hid, hwaits, hconflict⟩
      exact h o tx hlookup hconflict
  · intro h o tx hlookup hconflict
    obtain ⟨hallow, hspent, hid, hwaits, -⟩ :=
      (lookup_conflicted_iff honce).mp ⟨hlookup, hconflict⟩
    rcases h with hnever | hnone
    · exact Bool.false_ne_true (hnever ▸ hallow)
    · exact hnone o tx hspent hid hwaits hconflict

/-! ## Two spends of one coin -/

/-- A transaction that spends a certain coin and makes one output of a certain value. -/
def spendingCoin (value : Amount) : Transaction where
  version := 1
  inputs := [{ txid := .replicate 32 7, index := 1 }]
  outputs := [{ value, script := [] }]

theorem txid_spendingCoin_ne : (spendingCoin 6).txid ≠ (spendingCoin 5).txid := by decide +kernel

/-- The coin is spent by a confirmed transaction, and the other transaction that spends it is still
found, wherever the one is confirmed and the other announced. -/
theorem lookup_conflicted_of_spendingCoin
    (hconfirmed : history.filterMap ChainEvent.confirmed? = [spendingCoin 6])
    (hannounced : history.filterMap ChainEvent.announced? = [spendingCoin 5])
    (hspends : ∀ tx ∈ history.filterMap ChainEvent.transaction?, ∃ value, tx = spendingCoin value) :
    SpendsOnce history ∧
      (ofHistory {} history).lookup { txid := (spendingCoin 5).txid, index := 0 } =
        some (spendingCoin 5) ∧
      Conflicted history (spendingCoin 5) := by
  have hwaits : Waits history (spendingCoin 5) := by
    rw [Waits, hconfirmed, hannounced, latest?_eq_none_iff]
    exact ⟨by simpa using txid_spendingCoin_ne, by simp [latest?]⟩
  refine ⟨spendsOnce_of_confirmed_eq_singleton hconfirmed,
    lookup_ofHistory_eq_some_iff.mpr ⟨?_, rfl, .inr ⟨rfl, hwaits⟩⟩, ?_⟩
  · rw [Bool.eq_false_iff, ne_eq, isSpent_ofHistory_iff]
    rintro ⟨tx, htx, hinput⟩
    obtain ⟨value, rfl⟩ := hspends tx htx
    simp [spendingCoin] at hinput
  · exact ⟨spendingCoin 6, by simp [hconfirmed], txid_spendingCoin_ne, _, List.mem_singleton_self _,
      List.mem_singleton_self _⟩

/-- A view that finds no waiting transactions finds none that is conflicted, though one waits. -/
theorem no_conflicted_funding_iff_confirmed_only :
    SpendsOnce [.announce (spendingCoin 5), .confirm (spendingCoin 6)] ∧
      ∀ o tx, (ofHistory { allowMempool := false }
          [.announce (spendingCoin 5), .confirm (spendingCoin 6)]).lookup o = some tx →
        ¬Conflicted [.announce (spendingCoin 5), .confirm (spendingCoin 6)] tx := by
  have honce : SpendsOnce [.announce (spendingCoin 5), .confirm (spendingCoin 6)] :=
    spendsOnce_of_confirmed_eq_singleton rfl
  exact ⟨honce, (no_conflicted_funding_iff { allowMempool := false } _ honce).2.mpr (.inl rfl)⟩

/-- Of two transactions that spend one coin, one is confirmed and the other one is found, in
whichever order they came. -/
theorem lookup_conflicted_spendingCoin :
    (SpendsOnce [.announce (spendingCoin 5), .confirm (spendingCoin 6)] ∧
      (ofHistory {} [.announce (spendingCoin 5), .confirm (spendingCoin 6)]).lookup
        { txid := (spendingCoin 5).txid, index := 0 } = some (spendingCoin 5) ∧
      Conflicted [.announce (spendingCoin 5), .confirm (spendingCoin 6)] (spendingCoin 5)) ∧
    SpendsOnce [.confirm (spendingCoin 6), .announce (spendingCoin 5)] ∧
      (ofHistory {} [.confirm (spendingCoin 6), .announce (spendingCoin 5)]).lookup
        { txid := (spendingCoin 5).txid, index := 0 } = some (spendingCoin 5) ∧
      Conflicted [.confirm (spendingCoin 6), .announce (spendingCoin 5)] (spendingCoin 5) := by
  constructor
  · exact lookup_conflicted_of_spendingCoin rfl rfl
      (List.forall_mem_cons.mpr ⟨⟨5, rfl⟩, List.forall_mem_singleton.mpr ⟨6, rfl⟩⟩)
  · exact lookup_conflicted_of_spendingCoin rfl rfl
      (List.forall_mem_cons.mpr ⟨⟨6, rfl⟩, List.forall_mem_singleton.mpr ⟨5, rfl⟩⟩)

end View

end NodeAdmission
