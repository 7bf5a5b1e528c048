import Mathlib.Data.List.Induction
import Mathlib.Data.List.Perm.Basic
import NodeAdmission.Chain.View
/-!
# Spending and funding over a history

A view keeps four collections of transactions and outpoints, and confirming a transaction moves
entries from one to another. What the view answers about outputs can be said without them, from the
list of events alone: an outpoint is spent once any transaction of the history spent it, and the
transaction behind an outpoint is the latest of its hash, a confirmed one if there is any.

## The invariant

The waiting transactions of a view are *not* those that the history announced: confirming drops
some. What survives is weaker and enough. As long as no transaction of some hash was confirmed, the
waiting transaction of that hash is the latest announced one (`pending_lookup_ofHistory`); and where
one was confirmed, the view does not ask for it.
-/

namespace NodeAdmission

/-! ## What events are about -/

namespace ChainEvent

/-- The transaction that an event confirms. -/
def confirmed? : ChainEvent → Option Transaction
  | confirm tx => some tx
  | _ => none

/-- The transaction that an event announces. -/
def announced? : ChainEvent → Option Transaction
  | announce tx => some tx
  | _ => none

/-- The transaction that an event confirms or announces. -/
def transaction? (e : ChainEvent) : Option Transaction := e.confirmed?.or e.announced?

end ChainEvent

/-- The last of some transactions that has a given hash. -/
def latest? (txid : Hash) (txs : List Transaction) : Option Transaction :=
  (txs.filter fun tx ↦ tx.txid = txid).getLast?

/-- An event more is one more candidate, which is preferred to all before it. -/
theorem latest?_filterMap_append_singleton (f : ChainEvent → Option Transaction) (txid : Hash)
    (history : List ChainEvent) (e : ChainEvent) :
    latest? txid ((history ++ [e]).filterMap f) =
      ((f e).filter fun tx ↦ tx.txid = txid).or (latest? txid (history.filterMap f)) := by
  rw [List.filterMap_append, latest?, List.filter_append]
  cases hf : f e with
  | none => simp [hf, latest?]
  | some tx =>
    by_cases h : tx.txid = txid
    · simp [hf, h, Option.filter]
    · simp [hf, h, Option.filter, latest?]

theorem mem_of_latest? {txid : Hash} {txs : List Transaction} {tx : Transaction}
    (h : latest? txid txs = some tx) : tx ∈ txs ∧ tx.txid = txid := by
  have hmem : tx ∈ txs.filter fun tx ↦ tx.txid = txid := List.mem_of_getLast? h
  simpa using hmem

theorem latest?_eq_none_iff {txid : Hash} {txs : List Transaction} :
    latest? txid txs = none ↔ ∀ tx ∈ txs, tx.txid ≠ txid := by
  simp [latest?]

/-- Where all transactions of a hash are one transaction, the order does not matter. -/
theorem latest?_eq_of_perm {txid : Hash} {txs txs' : List Transaction} (hperm : txs'.Perm txs)
    (hone : ∀ tx ∈ txs, ∀ tx' ∈ txs, tx.txid = txid → tx'.txid = txid → tx = tx') :
    latest? txid txs' = latest? txid txs := by
  cases h : latest? txid txs' with
  | none =>
    rw [latest?_eq_none_iff] at h
    exact (latest?_eq_none_iff.mpr fun tx htx ↦ h tx (hperm.mem_iff.mpr htx)).symm
  | some tx =>
    obtain ⟨hmem, hid⟩ := mem_of_latest? h
    rw [hperm.mem_iff] at hmem
    cases h' : latest? txid txs with
    | none => exact absurd hid (latest?_eq_none_iff.mp h' tx hmem)
    | some tx' =>
      obtain ⟨hmem', hid'⟩ := mem_of_latest? h'
      rw [hone tx hmem tx' hmem' hid hid']

namespace View

variable (policy : ViewPolicy) (history : List ChainEvent)

/-! ## Runs -/

theorem ofHistory_append_singleton (e : ChainEvent) :
    ofHistory policy (history ++ [e]) = (ofHistory policy history).apply e := by
  rw [ofHistory, ofHistory, List.foldl_append]
  rfl

@[simp] theorem policy_apply (v : View) (e : ChainEvent) : (v.apply e).policy = v.policy := by
  cases e <;> rfl

@[simp] theorem policy_ofHistory : (ofHistory policy history).policy = policy := by
  induction history using List.reverseRecOn with
  | nil => rfl
  | append_singleton history e ih => rw [ofHistory_append_singleton, policy_apply, ih]

/-! ## Spending -/

theorem isSpent_apply_iff {v : View} {e : ChainEvent} {o : OutPoint} :
    (v.apply e).isSpent o = true ↔
      (∃ tx, e.transaction? = some tx ∧ o ∈ tx.inputs) ∨ v.isSpent o = true := by
  cases e with
  | block hash =>
    simp [apply, ChainEvent.transaction?, ChainEvent.confirmed?, ChainEvent.announced?]
  | rewind height =>
    simp [apply, ChainEvent.transaction?, ChainEvent.confirmed?, ChainEvent.announced?]
  | confirm tx => simp [apply, isSpent_confirm_iff, ChainEvent.transaction?, ChainEvent.confirmed?]
  | announce tx =>
    simp [apply, isSpent_announce_iff, ChainEvent.transaction?, ChainEvent.confirmed?,
      ChainEvent.announced?]

/-- An outpoint is spent exactly if a transaction of the history spends it. -/
theorem isSpent_ofHistory_iff {policy : ViewPolicy} {history : List ChainEvent} {o : OutPoint} :
    (ofHistory policy history).isSpent o = true ↔
      ∃ tx ∈ history.filterMap ChainEvent.transaction?, o ∈ tx.inputs := by
  induction history using List.reverseRecOn with
  | nil => simp [ofHistory, empty, isSpent]
  | append_singleton history e ih =>
    rw [ofHistory_append_singleton, isSpent_apply_iff, ih, List.filterMap_append]
    constructor
    · rintro (⟨tx, htx, ho⟩ | ⟨tx, htx, ho⟩)
      · exact ⟨tx, List.mem_append_right _ (by simp [htx]), ho⟩
      · exact ⟨tx, List.mem_append_left _ htx, ho⟩
    · rintro ⟨tx, htx, ho⟩
      rcases List.mem_append.mp htx with htx | htx
      · exact Or.inr ⟨tx, htx, ho⟩
      · exact Or.inl ⟨tx, by simpa using htx, ho⟩

/-! ## Funding -/

theorem lookup_cons_eq_or (txid : Hash) (tx : Transaction) (entries : List (Hash × Transaction)) :
    ((tx.txid, tx) :: entries).lookup txid =
      ((some tx).filter fun tx ↦ tx.txid = txid).or (entries.lookup txid) := by
  by_cases h : tx.txid = txid
  · simp [h, Option.filter]
  · simp [h, Option.filter, List.lookup_cons, beq_false_of_ne (Ne.symm h)]

/-- Dropping entries under one hash leaves those under another. -/
theorem lookup_filter_ne {txid dropped : Hash} (h : txid ≠ dropped)
    (entries : List (Hash × Transaction)) :
    (entries.filter fun entry ↦ entry.1 ≠ dropped).lookup txid = entries.lookup txid := by
  induction entries with
  | nil => rfl
  | cons entry entries ih =>
    obtain ⟨id, tx⟩ := entry
    simp only [ne_eq, decide_not] at ih
    by_cases hid : id = dropped
    · have hne : (txid == id) = false := beq_false_of_ne (hid ▸ h)
      simp [hid, List.lookup_cons, hid ▸ hne, ih]
    · simp [hid, List.lookup_cons, ih]

theorem confirmed_lookup_apply (v : View) (e : ChainEvent) (txid : Hash) :
    (v.apply e).confirmed.lookup txid =
      (e.confirmed?.filter fun tx ↦ tx.txid = txid).or (v.confirmed.lookup txid) := by
  cases e with
  | confirm tx => exact lookup_cons_eq_or txid tx v.confirmed
  | block hash => rfl
  | rewind height => rfl
  | announce tx => rfl

/-- An event that confirms no transaction of a hash leaves its waiting transaction, or announces
another one. -/
theorem pending_lookup_apply {v : View} {e : ChainEvent} {txid : Hash}
    (hnone : (e.confirmed?.filter fun tx ↦ tx.txid = txid) = none) :
    (v.apply e).pending.lookup txid =
      (e.announced?.filter fun tx ↦ tx.txid = txid).or (v.pending.lookup txid) := by
  cases e with
  | confirm tx =>
    have hne : tx.txid ≠ txid := by simpa [ChainEvent.confirmed?] using hnone
    exact lookup_filter_ne (Ne.symm hne) v.pending
  | announce tx => exact lookup_cons_eq_or txid tx v.pending
  | block hash => rfl
  | rewind height => rfl

theorem confirmed_lookup_ofHistory (txid : Hash) :
    (ofHistory policy history).confirmed.lookup txid =
      latest? txid (history.filterMap ChainEvent.confirmed?) := by
  induction history using List.reverseRecOn with
  | nil => rfl
  | append_singleton history e ih =>
    rw [ofHistory_append_singleton, confirmed_lookup_apply, ih,
      latest?_filterMap_append_singleton]

/-- **The invariant of the waiting transactions**, by induction on the history. -/
theorem pending_lookup_ofHistory {txid : Hash}
    (hnone : latest? txid (history.filterMap ChainEvent.confirmed?) = none) :
    (ofHistory policy history).pending.lookup txid =
      latest? txid (history.filterMap ChainEvent.announced?) := by
  induction history using List.reverseRecOn with
  | nil => rfl
  | append_singleton history e ih =>
    rw [latest?_filterMap_append_singleton, Option.or_eq_none_iff] at hnone
    rw [ofHistory_append_singleton, pending_lookup_apply hnone.1, ih hnone.2,
      latest?_filterMap_append_singleton]

/-- The transaction behind an outpoint, from the history alone. -/
theorem lookup_ofHistory (o : OutPoint) :
    (ofHistory policy history).lookup o =
      if (ofHistory policy history).isSpent o then none
      else
        (latest? o.txid (history.filterMap ChainEvent.confirmed?)).or
          (if policy.allowMempool then latest? o.txid (history.filterMap ChainEvent.announced?)
            else none) := by
  rw [lookup, confirmed_lookup_ofHistory, policy_ofHistory]
  cases hconfirmed : latest? o.txid (history.filterMap ChainEvent.confirmed?) with
  | none => rw [pending_lookup_ofHistory policy history hconfirmed]
  | some tx => rfl

theorem lookup_of_isSpent {v : View} {o : OutPoint} (h : v.isSpent o = true) :
    v.lookup o = none := if_pos h

theorem txid_of_lookup_ofHistory {policy : ViewPolicy} {history : List ChainEvent} {o : OutPoint}
    {tx : Transaction} (h : (ofHistory policy history).lookup o = some tx) : tx.txid = o.txid := by
  rw [lookup_ofHistory] at h
  split at h
  · cases h
  · rcases Option.or_eq_some_iff.mp h with hconfirmed | ⟨-, hpending⟩
    · exact (mem_of_latest? hconfirmed).2
    · split at hpending
      · exact (mem_of_latest? hpending).2
      · cases hpending

/-! ## Order -/

theorem isSpent_ofHistory_congr {history history' : List ChainEvent}
    (h : ∀ tx, tx ∈ history'.filterMap ChainEvent.transaction? ↔
      tx ∈ history.filterMap ChainEvent.transaction?) (o : OutPoint) :
    (ofHistory policy history').isSpent o = (ofHistory policy history).isSpent o := by
  rw [Bool.eq_iff_iff, isSpent_ofHistory_iff, isSpent_ofHistory_iff]
  simp only [h]

theorem mem_filterMap_transaction?_of_confirmed? {tx : Transaction}
    (h : tx ∈ history.filterMap ChainEvent.confirmed?) :
    tx ∈ history.filterMap ChainEvent.transaction? := by
  obtain ⟨e, he, htx⟩ := List.mem_filterMap.mp h
  exact List.mem_filterMap.mpr ⟨e, he, by simp [ChainEvent.transaction?, htx]⟩

theorem mem_filterMap_transaction?_of_announced? {tx : Transaction}
    (h : tx ∈ history.filterMap ChainEvent.announced?) :
    tx ∈ history.filterMap ChainEvent.transaction? := by
  obtain ⟨e, he, htx⟩ := List.mem_filterMap.mp h
  cases e with
  | announce tx' => exact List.mem_filterMap.mpr ⟨_, he, htx⟩
  | _ => cases htx

/-- A history in another order finds the same transaction, unless two different ones have the hash
that is asked for. -/
theorem lookup_ofHistory_of_perm {history history' : List ChainEvent}
    (hperm : history'.Perm history) {o : OutPoint}
    (hone : ∀ tx ∈ history.filterMap ChainEvent.transaction?,
      ∀ tx' ∈ history.filterMap ChainEvent.transaction?,
        tx.txid = o.txid → tx'.txid = o.txid → tx = tx') :
    (ofHistory policy history').lookup o = (ofHistory policy history).lookup o := by
  have hspent := isSpent_ofHistory_congr policy (fun tx ↦ (hperm.filterMap _).mem_iff) o
  have hconfirmed := latest?_eq_of_perm (hperm.filterMap ChainEvent.confirmed?)
    fun tx htx tx' htx' ↦ hone tx (mem_filterMap_transaction?_of_confirmed? history htx) tx'
      (mem_filterMap_transaction?_of_confirmed? history htx')
  have hannounced := latest?_eq_of_perm (hperm.filterMap ChainEvent.announced?)
    fun tx htx tx' htx' ↦ hone tx (mem_filterMap_transaction?_of_announced? history htx) tx'
      (mem_filterMap_transaction?_of_announced? history htx')
  rw [lookup_ofHistory, lookup_ofHistory, hspent, hconfirmed, hannounced]

/-- Only the confirmed and the announced transactions of a history matter. -/
theorem lookup_ofHistory_congr {history history' : List ChainEvent}
    (h : ∀ f : ChainEvent → Option Transaction, (∀ e, e.transaction? = none → f e = none) →
      history'.filterMap f = history.filterMap f) (o : OutPoint) :
    (ofHistory policy history').lookup o = (ofHistory policy history).lookup o := by
  have htransactions := h ChainEvent.transaction? fun _ he ↦ he
  have hspent : (ofHistory policy history').isSpent o = (ofHistory policy history).isSpent o :=
    isSpent_ofHistory_congr policy (fun tx ↦ by rw [htransactions]) o
  have hconfirmed := h ChainEvent.confirmed? fun e he ↦ (Option.or_eq_none_iff.mp he).1
  have hannounced := h ChainEvent.announced? fun e he ↦ (Option.or_eq_none_iff.mp he).2
  rw [lookup_ofHistory, lookup_ofHistory, hspent, hconfirmed, hannounced]

/-! ## The answers -/

/-- **The answers about outputs refine the history.** An outpoint is spent exactly if a confirmed or
announced transaction spends it. A spent outpoint leads nowhere, whatever the policy; any other one
leads to the latest confirmed transaction of its hash, or else, if the policy allows, to the latest
announced one. So the order of events shows in no answer but in the choice between different
transactions of one hash, and events that concern blocks show in none at all. -/
theorem ofHistory_answers (policy : ViewPolicy) (history : List ChainEvent) :
    (∀ o, (ofHistory policy history).isSpent o = true ↔
      ∃ tx ∈ history.filterMap ChainEvent.transaction?, o ∈ tx.inputs) ∧
    (∀ o, (ofHistory policy history).lookup o =
      if (ofHistory policy history).isSpent o then none
      else
        (latest? o.txid (history.filterMap ChainEvent.confirmed?)).or
          (if policy.allowMempool then latest? o.txid (history.filterMap ChainEvent.announced?)
            else none)) ∧
    (∀ o tx, (ofHistory policy history).lookup o = some tx → tx.txid = o.txid) ∧
    (∀ tx, .announce tx ∈ history → ∀ o ∈ tx.inputs,
      (ofHistory policy history).lookup o = none) ∧
    (∀ history', history'.Perm history → ∀ o,
      (ofHistory policy history').isSpent o = (ofHistory policy history).isSpent o ∧
      ((ofHistory policy history).isSpent o = true ∨
          (∀ tx ∈ history.filterMap ChainEvent.transaction?,
            ∀ tx' ∈ history.filterMap ChainEvent.transaction?,
              tx.txid = o.txid → tx'.txid = o.txid → tx = tx') →
        (ofHistory policy history').lookup o = (ofHistory policy history).lookup o)) ∧
    (∀ before e after, history = before ++ e :: after → e.transaction? = none → ∀ o,
      (ofHistory policy (before ++ after)).isSpent o = (ofHistory policy history).isSpent o ∧
      (ofHistory policy (before ++ after)).lookup o = (ofHistory policy history).lookup o) := by
  refine ⟨fun o ↦ isSpent_ofHistory_iff, lookup_ofHistory policy history,
    fun o tx ↦ txid_of_lookup_ofHistory, ?_, ?_, ?_⟩
  · intro tx htx o ho
    exact lookup_of_isSpent
      (isSpent_ofHistory_iff.mpr ⟨tx, List.mem_filterMap.mpr ⟨_, htx, rfl⟩, ho⟩)
  · intro history' hperm o
    have hspent := isSpent_ofHistory_congr policy (fun tx ↦ (hperm.filterMap _).mem_iff) o
    refine ⟨hspent, ?_⟩
    rintro (h | hone)
    · rw [lookup_of_isSpent h, lookup_of_isSpent (hspent.trans h)]
    · exact lookup_ofHistory_of_perm policy hperm hone
  · rintro before e after rfl hnone o
    have hsame : ∀ f : ChainEvent → Option Transaction, (∀ e, e.transaction? = none → f e = none) →
        (before ++ after).filterMap f = (before ++ e :: after).filterMap f := by
      intro f hf
      simp [hf e hnone]
    have htransactions := hsame ChainEvent.transaction? fun _ he ↦ he
    exact ⟨isSpent_ofHistory_congr policy (fun tx ↦ by rw [htransactions]) o,
      lookup_ofHistory_congr policy hsame o⟩

/-- A transaction that makes two outputs. -/
def twoCoins : Transaction where
  version := 1
  inputs := [.null]
  outputs := [{ value := 5, script := [] }, { value := 6, script := [] }]

/-- A transaction that spends the first output of another one. -/
def spendingFirst (tx : Transaction) : Transaction where
  version := 1
  inputs := [{ txid := tx.txid, index := 0 }]
  outputs := []

/-- Announced before the transaction that it spends from, and where nothing that waits may be found,
a spend still hides the one output and leaves the other. -/
theorem ofHistory_answers_spent_before_funded :
    (ofHistory { allowMempool := false }
        [.announce (spendingFirst twoCoins), .confirm twoCoins]).lookup
      { txid := twoCoins.txid, index := 0 } = none ∧
    (ofHistory { allowMempool := false }
        [.announce (spendingFirst twoCoins), .confirm twoCoins]).lookup
      { txid := twoCoins.txid, index := 1 } = some twoCoins := by
  obtain ⟨hspent, hlookup, -, hhidden, -, -⟩ := ofHistory_answers { allowMempool := false }
    [.announce (spendingFirst twoCoins), .confirm twoCoins]
  refine ⟨hhidden (spendingFirst twoCoins) (by simp) _ (by simp [spendingFirst]), ?_⟩
  rw [hlookup, if_neg]
  · have hconfirmed : [ChainEvent.announce (spendingFirst twoCoins), .confirm twoCoins].filterMap
        ChainEvent.confirmed? = [twoCoins] := rfl
    simp [hconfirmed, latest?]
  · rw [hspent]
    have htransactions : [ChainEvent.announce (spendingFirst twoCoins), .confirm twoCoins].filterMap
        ChainEvent.transaction? = [spendingFirst twoCoins, twoCoins] := rfl
    rw [htransactions]
    simp [spendingFirst, twoCoins, OutPoint.null]

end View

end NodeAdmission
