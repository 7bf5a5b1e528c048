import Mathlib.Algebra.Group.Nat.Defs
import NodeAdmission.Proofs.Chain.Spending
/-!
# Anchors over a history

Blocks are appended at the height after the tip and dropped by rewinding, so that one height can be
given out many times. `StandsAt` says from the events alone which block is the current one of a
height, and `anchors_of_history` that the view accepts this block and no other.

Heights have 32 bits. Up to `2 ^ 32` blocks they are exact, and nothing is subtracted below zero.
-/

namespace NodeAdmission.View

variable {policy : ViewPolicy} {history : List ChainEvent}

/-! ## Heights -/

/-- Heights have room for all blocks. -/
def HeightsFit (v : View) : Prop := v.blocks.size ≤ 2 ^ 32

/-- No event of a history leads to more blocks than heights have room for. -/
def HeightsFitThroughout (policy : ViewPolicy) (history : List ChainEvent) : Prop :=
  ∀ before, before <+: history → (ofHistory policy before).HeightsFit

theorem HeightsFitThroughout.before {e : ChainEvent}
    (h : HeightsFitThroughout policy (history ++ [e])) : HeightsFitThroughout policy history :=
  fun before hbefore ↦ h before (hbefore.trans (List.prefix_append history [e]))

theorem HeightsFitThroughout.last (h : HeightsFitThroughout policy history) :
    (ofHistory policy history).HeightsFit := h history (List.prefix_refl history)

theorem toNat_tipHeight {v : View} (h : v.HeightsFit) : v.tipHeight.toNat = v.blocks.size - 1 := by
  have hlt : v.blocks.size - 1 < UInt32.size := by
    rw [HeightsFit] at h
    simp only [UInt32.size]
    omega
  exact UInt32.toNat_ofNat_of_lt' hlt

/-- A block is appended at the number of blocks before it. -/
theorem toNat_tipHeight_pushBlock {v : View} {hash : Hash} (h : (v.pushBlock hash).HeightsFit) :
    (v.pushBlock hash).tipHeight.toNat = v.blocks.size := by
  rw [toNat_tipHeight h, pushBlock, Array.size_push]
  rfl

theorem size_blocks_rewindTo (v : View) (height : UInt32) :
    (v.rewindTo height).blocks.size = min (height.toNat + 1) v.blocks.size := by
  rw [← Array.length_toList, rewindTo]
  simp

/-- Every event appends one block at most. -/
theorem size_blocks_apply_le (v : View) (e : ChainEvent) :
    (v.apply e).blocks.size ≤ v.blocks.size + 1 := by
  cases e with
  | block hash => exact Nat.le_of_eq (Array.size_push hash)
  | rewind height =>
    rw [apply, size_blocks_rewindTo]
    omega
  | confirm tx => exact Nat.le_succ _
  | announce tx => exact Nat.le_succ _

theorem size_blocks_ofHistory_le (policy : ViewPolicy) (history : List ChainEvent) :
    (ofHistory policy history).blocks.size ≤ history.length := by
  induction history using List.reverseRecOn with
  | nil => exact Nat.le_refl 0
  | append_singleton history e ih =>
    rw [ofHistory_append_singleton, List.length_append]
    exact Nat.le_trans (size_blocks_apply_le _ e) (Nat.add_le_add_right ih 1)

/-- A history that is not too long needs no other bound. -/
theorem heightsFitThroughout_of_length_le (h : history.length ≤ 2 ^ 32) :
    HeightsFitThroughout policy history :=
  fun before hbefore ↦
    Nat.le_trans (size_blocks_ofHistory_le policy before) (Nat.le_trans hbefore.length_le h)

theorem tip?_eq_none_iff {v : View} : v.tip? = none ↔ v.blocks.size = 0 := by
  simp [tip?]

/-- The height of an appended block is the one after the tip. -/
theorem toNat_tipHeight_pushBlock_eq_tip? {v : View} {hash : Hash}
    (h : (v.pushBlock hash).HeightsFit) :
    (v.pushBlock hash).tipHeight.toNat =
      match v.tip? with
      | none => 0
      | some tip => tip.height.toNat + 1 := by
  have hv : v.HeightsFit := by
    rw [HeightsFit, pushBlock, Array.size_push] at h
    rw [HeightsFit]
    omega
  rw [toNat_tipHeight_pushBlock h]
  cases htip : v.tip? with
  | none => exact tip?_eq_none_iff.mp htip
  | some tip =>
    have hpos : v.blocks.size ≠ 0 := mt tip?_eq_none_iff.mpr (by simp [htip])
    have hheight : tip.height = v.tipHeight := by
      obtain ⟨hash', -, rfl⟩ := Option.map_eq_some_iff.mp htip
      rfl
    simp only [hheight, toNat_tipHeight hv]
    omega

/-! ## The chain does not vanish -/

theorem tip?_apply_ne_none {v : View} {e : ChainEvent} (h : v.tip? ≠ none) :
    (v.apply e).tip? ≠ none := by
  rw [ne_eq, tip?_eq_none_iff] at h ⊢
  cases e with
  | block hash => simp [apply, pushBlock]
  | rewind height =>
    rw [apply, size_blocks_rewindTo]
    omega
  | confirm tx => exact h
  | announce tx => exact h

theorem tip?_ofHistory_append_ne_none {before after : List ChainEvent}
    (h : (ofHistory policy before).tip? ≠ none) :
    (ofHistory policy (before ++ after)).tip? ≠ none := by
  induction after using List.reverseRecOn with
  | nil => rwa [List.append_nil]
  | append_singleton after e ih =>
    rw [← List.append_assoc, ofHistory_append_singleton]
    exact tip?_apply_ne_none ih

/-! ## The current block of a height -/

/-- The anchor's block is the latest one that the history appended at the anchor's height, and it
was not dropped since. -/
def StandsAt (policy : ViewPolicy) (history : List ChainEvent) (a : Anchor) : Prop :=
  ∃ before after, history = before ++ .block a.hash :: after ∧
    ((ofHistory policy before).pushBlock a.hash).tipHeight = a.height ∧
    (∀ between hash rest, after = between ++ .block hash :: rest →
      ((ofHistory policy (before ++ .block a.hash :: between)).pushBlock hash).tipHeight ≠
        a.height) ∧
    ∀ target, .rewind target ∈ after → ¬target < a.height

/-- A split of a history at one of its events has that event last, or splits what is before the
last one. -/
theorem append_singleton_eq_append_cons_iff {α : Type} {xs before after : List α} {x y : α} :
    xs ++ [x] = before ++ y :: after ↔
      (xs = before ∧ x = y ∧ after = []) ∨
        ∃ middle, after = middle ++ [x] ∧ xs = before ++ y :: middle := by
  constructor
  · intro h
    induction after using List.reverseRecOn with
    | nil =>
      obtain ⟨hxs, hx⟩ := List.append_inj' h rfl
      exact Or.inl ⟨hxs, List.singleton_inj.mp hx, rfl⟩
    | append_singleton middle z _ =>
      rw [← List.cons_append, ← List.append_assoc] at h
      obtain ⟨hxs, hx⟩ := List.append_inj' h rfl
      exact Or.inr ⟨middle, by rw [hx], hxs⟩
  · rintro (⟨rfl, rfl, rfl⟩ | ⟨middle, rfl, rfl⟩)
    · rfl
    · simp

/-- One more event makes a block stand that it appends at the height, and leaves one that stood
unless it appends another at the height or goes below it. -/
theorem standsAt_append_singleton_iff {e : ChainEvent} {a : Anchor} :
    StandsAt policy (history ++ [e]) a ↔
      (e = .block a.hash ∧
        ((ofHistory policy history).pushBlock a.hash).tipHeight = a.height) ∨
      (StandsAt policy history a ∧
        (∀ hash, e = .block hash →
          ((ofHistory policy history).pushBlock hash).tipHeight ≠ a.height) ∧
        ∀ target, e = .rewind target → ¬target < a.height) := by
  constructor
  · rintro ⟨before, after, hsplit, hheight, hlater, hrewind⟩
    rcases append_singleton_eq_append_cons_iff.mp hsplit with
      ⟨rfl, rfl, rfl⟩ | ⟨middle, rfl, rfl⟩
    · exact Or.inl ⟨rfl, hheight⟩
    · refine Or.inr ⟨⟨before, middle, rfl, hheight, ?_, ?_⟩, ?_, ?_⟩
      · rintro between hash rest rfl
        exact hlater between hash (rest ++ [e]) (by simp)
      · exact fun target htarget ↦ hrewind target (List.mem_append_left [e] htarget)
      · rintro hash rfl
        exact hlater middle hash [] rfl
      · rintro target rfl
        exact hrewind target (by simp)
  · rintro (⟨rfl, hheight⟩ | ⟨⟨before, after, rfl, hheight, hlater, hrewind⟩, hblock, htarget⟩)
    · exact ⟨history, [], rfl, hheight, by simp, by simp⟩
    · refine ⟨before, after ++ [e], by simp, hheight, ?_, ?_⟩
      · intro between hash rest hsplit
        rcases append_singleton_eq_append_cons_iff.mp hsplit with
          ⟨rfl, rfl, rfl⟩ | ⟨middle, rfl, rfl⟩
        · exact hblock hash rfl
        · exact hlater between hash middle rfl
      · intro target hmem
        rcases List.mem_append.mp hmem with hmem | hmem
        · exact hrewind target hmem
        · exact htarget target (List.mem_singleton.mp hmem).symm

/-! ## The anchor check -/

/-- **The view knows the current block of every height**, by induction on the history. -/
theorem blockHash?_ofHistory_eq_some_iff (h : HeightsFitThroughout policy history) {a : Anchor} :
    (ofHistory policy history).blockHash? a.height = some a.hash ↔ StandsAt policy history a := by
  induction history using List.reverseRecOn with
  | nil =>
    have hnone : ¬StandsAt policy [] a := by
      rintro ⟨before, after, hsplit, -⟩
      simp at hsplit
    simp [hnone, ofHistory, empty, blockHash?]
  | append_singleton history e ih =>
    have hfit := h.last
    rw [ofHistory_append_singleton] at hfit ⊢
    rw [standsAt_append_singleton_iff, ← ih h.before]
    cases e with
    | block hash =>
      rw [apply] at hfit
      -- Appending gives the height that is the number of blocks so far.
      have hheight : ∀ hash', ((ofHistory policy history).pushBlock hash').tipHeight = a.height ↔
          a.height.toNat = (ofHistory policy history).blocks.size := by
        intro hash'
        have hfit' : ((ofHistory policy history).pushBlock hash').HeightsFit := by
          rwa [HeightsFit, pushBlock, Array.size_push] at hfit ⊢
        rw [← UInt32.toNat_inj, toNat_tipHeight_pushBlock hfit', eq_comm]
      rw [apply, blockHash?_pushBlock]
      by_cases hat : a.height.toNat = (ofHistory policy history).blocks.size
      · simp [hat, hheight, eq_comm]
      · simp [hat, hheight]
    | rewind target =>
      rw [apply, blockHash?_rewindTo]
      by_cases hle : a.height ≤ target
      · simp [hle, UInt32.not_lt]
      · simp [hle, UInt32.not_lt]
    | confirm tx => simp [apply, confirm, blockHash?]
    | announce tx => simp [apply, announce, blockHash?]

/-- A block that is found is not above the tip, so that the distance to the tip is a number. -/
theorem le_tipHeight_of_blockHash? {v : View} (h : v.HeightsFit) {height : UInt32}
    (hfound : v.blockHash? height ≠ none) : 1 ≤ v.blocks.size ∧ height ≤ v.tipHeight := by
  have hlt : height.toNat < v.blocks.size := by
    rw [blockHash?] at hfound
    by_contra hge
    exact hfound (Array.getElem?_eq_none (Nat.le_of_not_lt hge))
  rw [UInt32.le_iff_toNat_le, toNat_tipHeight h]
  omega

theorem checkAnchor_iff {v : View} (h : v.HeightsFit) {a : Anchor} {enforce : Bool} :
    v.checkAnchor a enforce = true ↔
      v.blockHash? a.height = some a.hash ∧
        (enforce = true →
          v.tipHeight.toNat - a.height.toNat ≤ v.policy.staleBlocks.toNat) := by
  rw [checkAnchor, Bool.and_eq_true, decide_eq_true_eq]
  refine and_congr_right fun hfound ↦ ?_
  have hle : a.height ≤ v.tipHeight :=
    (le_tipHeight_of_blockHash? h (Option.ne_none_iff_exists'.mpr ⟨a.hash, hfound⟩)).2
  rw [← UInt32.toNat_sub_of_le _ _ hle, ← UInt32.le_iff_toNat_le]
  cases enforce <;> simp

/-- **The anchor check refines the history.** While heights fit, an anchor is accepted exactly if
its block stands at its height, and as a recent one exactly if the tip is besides no further above
it than the policy allows. Appending gives the height after the tip, starting from zero; a chain
that has a block keeps one; and no length or height that is subtracted from is the smaller one. -/
theorem anchors_of_history (policy : ViewPolicy) (history : List ChainEvent)
    (hfit : HeightsFitThroughout policy history) :
    (∀ a, (ofHistory policy history).checkAnchor a false = true ↔ StandsAt policy history a) ∧
    (∀ a, (ofHistory policy history).checkAnchor a true = true ↔
      StandsAt policy history a ∧
        (ofHistory policy history).tipHeight.toNat - a.height.toNat ≤
          policy.staleBlocks.toNat) ∧
    (∀ before hash after, history = before ++ .block hash :: after →
      ((ofHistory policy before).pushBlock hash).tipHeight.toNat =
        match (ofHistory policy before).tip? with
        | none => 0
        | some tip => tip.height.toNat + 1) ∧
    (∀ before after, history = before ++ after → (ofHistory policy before).tip? ≠ none →
      (ofHistory policy history).tip? ≠ none) ∧
    (∀ hash, 1 ≤ ((ofHistory policy history).pushBlock hash).blocks.size) ∧
    ((ofHistory policy history).tip? ≠ none → 1 ≤ (ofHistory policy history).blocks.size) ∧
    ∀ height, (ofHistory policy history).blockHash? height ≠ none →
      1 ≤ (ofHistory policy history).blocks.size ∧
        height ≤ (ofHistory policy history).tipHeight := by
  refine ⟨fun a ↦ ?_, fun a ↦ ?_, ?_, ?_, fun hash ↦ ?_, fun htip ↦ ?_,
    fun height ↦ le_tipHeight_of_blockHash? hfit.last⟩
  · rw [checkAnchor_iff hfit.last, blockHash?_ofHistory_eq_some_iff hfit]
    simp
  · rw [checkAnchor_iff hfit.last, blockHash?_ofHistory_eq_some_iff hfit, policy_ofHistory]
    simp
  · rintro before hash after rfl
    have happended : (ofHistory policy (before ++ [.block hash])).HeightsFit :=
      hfit _ ⟨after, by simp⟩
    rw [ofHistory_append_singleton] at happended
    exact toNat_tipHeight_pushBlock_eq_tip? happended
  · rintro before after rfl htip
    exact tip?_ofHistory_append_ne_none htip
  · rw [pushBlock, Array.size_push]
    exact Nat.le_add_left 1 _
  · exact Nat.one_le_iff_ne_zero.mpr (mt tip?_eq_none_iff.mpr htip)

/-- Blocks of which the second is dropped and its height given out again. -/
def replacedBlock : List ChainEvent :=
  [.block (.replicate 32 1), .block (.replicate 32 2), .rewind 0, .block (.replicate 32 3),
    .block (.replicate 32 4), .rewind 0xffff_ffff]

/-- The dropped block does not stand any more, and the one at the bottom is not recent any more. -/
theorem anchors_of_history_replaced :
    HeightsFitThroughout { staleBlocks := 1 } replacedBlock ∧
      StandsAt { staleBlocks := 1 } replacedBlock { height := 1, hash := .replicate 32 3 } ∧
      ¬StandsAt { staleBlocks := 1 } replacedBlock { height := 1, hash := .replicate 32 2 } ∧
      (ofHistory { staleBlocks := 1 } replacedBlock).checkAnchor
        { height := 1, hash := .replicate 32 3 } true = true ∧
      (ofHistory { staleBlocks := 1 } replacedBlock).checkAnchor
        { height := 0, hash := .replicate 32 1 } true = false := by
  have hfit : HeightsFitThroughout { staleBlocks := 1 } replacedBlock :=
    heightsFitThroughout_of_length_le (by decide)
  obtain ⟨hstands, hrecent, -⟩ := anchors_of_history { staleBlocks := 1 } replacedBlock hfit
  have hthree : StandsAt { staleBlocks := 1 } replacedBlock
      { height := 1, hash := .replicate 32 3 } := (hstands _).mp (by decide)
  refine ⟨hfit, hthree, fun h ↦ ?_, (hrecent _).mpr ⟨hthree, by decide⟩, ?_⟩
  · exact absurd ((hstands _).mpr h) (by decide)
  · rw [Bool.eq_false_iff, ne_eq, hrecent]
    exact fun h ↦ absurd h.2 (by decide)

end NodeAdmission.View
