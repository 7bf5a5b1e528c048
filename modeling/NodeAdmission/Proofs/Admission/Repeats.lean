import Mathlib.Data.List.Nodup
import Mathlib.Order.Bounds.Defs
import NodeAdmission.Proofs.Admission.Stake
/-!
# Repeats in a list of outpoints

Collateral that lists one output twice would count its value twice. `checkSet` refuses it, and this
module says what it refuses by positions: the outpoint that is named is the one at the first
position that repeats an earlier one (`RepeatsAt`), however far behind it stands.

The invariant of the search is that no outpoint seen so far repeats another, so what it stops at is
the first repeat of the whole list (`firstRepeat?_eq_some_iff`).

## Seen in what order

What was seen is a question of membership alone, so it may be kept in an ordered set as well as in a
list. A search tree finds an element by comparing, so it answers that question only where the order
is a total one and calls no two different outpoints equal. The order of outpoints is of this kind:
the bytes of the hash decide, then the position (`OutPoint.compare_eq_lt_iff`). In a tree with that
order the search finds the same repeat (`firstRepeatIn?_eq`).
-/

namespace NodeAdmission

/-! ## The order of outpoints -/

instance {n : ℕ} : Std.TransOrd (Octets n) :=
  inferInstanceAs (Std.TransCmp (compareOn Octets.toList))

instance {n : ℕ} : Std.LawfulEqOrd (Octets n) where
  eq_of_compare h := Octets.ext (Std.LawfulEqOrd.eq_of_compare (α := List UInt8) h)
  compare_self := Std.ReflOrd.compare_self (α := List UInt8)

/-- Byte strings are compared at the first byte in which they differ. -/
theorem compare_bytes_eq_lt_iff {l l' : List UInt8} : compare l l' = .lt ↔ l < l' := by
  induction l generalizing l' with
  | nil => cases l' <;> simp
  | cons b bs ih =>
    cases l' with
    | nil => simp
    | cons b' bs' =>
      rw [List.compare_cons_cons, Ordering.then_eq_lt, Std.compare_eq_lt,
        Std.LawfulEqOrd.compare_eq_iff_eq, List.cons_lt_cons_iff, ih]

namespace OutPoint

instance : Std.TransOrd OutPoint :=
  inferInstanceAs (Std.TransCmp (compareLex (compareOn txid) (compareOn index)))

theorem compare_eq_then (o p : OutPoint) :
    compare o p = (compare o.txid p.txid).then (compare o.index p.index) := rfl

instance : Std.LawfulEqOrd OutPoint where
  compare_self {o} := by rw [compare_eq_then, Std.ReflOrd.compare_self, Std.ReflOrd.compare_self]; rfl
  eq_of_compare {o p} h := by
    rw [compare_eq_then, Ordering.then_eq_eq] at h
    rcases o with ⟨txid, index⟩
    rcases p with ⟨txid', index'⟩
    exact congrArg₂ mk (Std.LawfulEqOrd.eq_of_compare h.1) (Std.LawfulEqOrd.eq_of_compare h.2)

theorem compare_eq_eq_iff {o p : OutPoint} :
    compare o p = .eq ↔ o.txid = p.txid ∧ o.index = p.index := by
  rw [compare_eq_then, Ordering.then_eq_eq, Std.LawfulEqOrd.compare_eq_iff_eq,
    Std.LawfulEqOrd.compare_eq_iff_eq]

/-- Outpoints come in the order of the bytes of their hashes, then of their positions. -/
theorem compare_eq_lt_iff {o p : OutPoint} :
    compare o p = .lt ↔
      o.txid.toList < p.txid.toList ∨ o.txid = p.txid ∧ o.index < p.index := by
  have hbytes : compare o.txid p.txid = compare o.txid.toList p.txid.toList := rfl
  rw [compare_eq_then, Ordering.then_eq_lt, Std.LawfulEqOrd.compare_eq_iff_eq, hbytes,
    compare_bytes_eq_lt_iff, Std.compare_eq_lt]

end OutPoint

namespace Collateral

/-! ## The first repeat -/

/-- What stands at the position stands at an earlier one already. -/
def RepeatsAt (os : List OutPoint) (j : ℕ) : Prop := j < os.length ∧ ∃ i < j, os[i]? = os[j]?

/-- The search stops at an element that was seen, and not before. -/
theorem firstRepeat?_eq_some_iff {seen os : List OutPoint} {o : OutPoint} :
    firstRepeat? seen os = some o ↔
      ∃ before after, os = before ++ o :: after ∧ firstRepeat? seen before = none ∧
        (o ∈ seen ∨ o ∈ before) := by
  induction os generalizing seen with
  | nil => simp [firstRepeat?]
  | cons p os ih =>
    rw [firstRepeat?]
    by_cases hp : p ∈ seen
    · rw [if_pos hp]
      constructor
      · rintro ⟨⟩
        exact ⟨[], os, rfl, rfl, .inl hp⟩
      · rintro ⟨before, after, hsplit, hnone, -⟩
        cases before with
        | nil => exact congrArg some (List.cons.inj hsplit).1
        | cons q before =>
          -- An element that was seen does not stand in front of the one that is found.
          obtain ⟨rfl, -⟩ := List.cons.inj hsplit
          rw [firstRepeat?, if_pos hp] at hnone
          cases hnone
    · rw [if_neg hp, ih]
      constructor
      · rintro ⟨before, after, rfl, hnone, hseen⟩
        refine ⟨p :: before, after, rfl, ?_, ?_⟩
        · rwa [firstRepeat?, if_neg hp]
        · simpa only [List.mem_cons, or_assoc, or_left_comm] using hseen
      · rintro ⟨before, after, hsplit, hnone, hseen⟩
        cases before with
        | nil =>
          obtain ⟨rfl, -⟩ := List.cons.inj hsplit
          exact absurd hseen (not_or.mpr ⟨hp, List.not_mem_nil⟩)
        | cons q before =>
          obtain ⟨rfl, rfl⟩ := List.cons.inj hsplit
          rw [firstRepeat?, if_neg hp] at hnone
          refine ⟨before, after, rfl, hnone, ?_⟩
          simpa only [List.mem_cons, or_assoc, or_left_comm] using hseen

/-- No position repeats an earlier one exactly if no two elements are the same. -/
theorem nodup_iff_not_repeatsAt {os : List OutPoint} : os.Nodup ↔ ∀ j, ¬RepeatsAt os j := by
  rw [List.nodup_iff_getElem?_ne_getElem?]
  constructor
  · rintro h j ⟨hj, i, hij, heq⟩
    exact h i j hij hj heq
  · exact fun h i j hij hj heq ↦ h j ⟨hj, i, hij, heq⟩

theorem repeatsAt_append_iff {before after : List OutPoint} {j : ℕ} (h : j < before.length) :
    RepeatsAt (before ++ after) j ↔ RepeatsAt before j := by
  have hshared : ∀ i, i < before.length → (before ++ after)[i]? = before[i]? :=
    fun i hi ↦ List.getElem?_append_left hi
  constructor
  · rintro ⟨-, i, hij, heq⟩
    rw [hshared i (hij.trans h), hshared j h] at heq
    exact ⟨h, i, hij, heq⟩
  · rintro ⟨-, i, hij, heq⟩
    rw [← hshared i (hij.trans h), ← hshared j h] at heq
    exact ⟨h.trans_le (by simp), i, hij, heq⟩

/-- A position repeats an earlier one, and is the first to do so, if what stands there stands in
front of it, where no element is repeated. -/
theorem isLeast_repeatsAt_iff {before after : List OutPoint} {o : OutPoint} :
    IsLeast {j | RepeatsAt (before ++ o :: after) j} before.length ↔
      before.Nodup ∧ o ∈ before := by
  have hhere : (before ++ o :: after)[before.length]? = some o := by simp
  rw [nodup_iff_not_repeatsAt]
  constructor
  · rintro ⟨⟨-, i, hi, heq⟩, hleast⟩
    constructor
    · intro j hrepeat
      have hj : j < before.length := hrepeat.1
      exact absurd (hleast ((repeatsAt_append_iff hj).mpr hrepeat)) (Nat.not_le.mpr hj)
    · rw [hhere, List.getElem?_append_left hi] at heq
      exact List.mem_of_getElem? heq
  · rintro ⟨hnone, hmem⟩
    constructor
    · obtain ⟨i, hi, heq⟩ := List.mem_iff_getElem.mp hmem
      refine ⟨by simp, i, hi, ?_⟩
      rw [hhere, List.getElem?_append_left hi, List.getElem?_eq_getElem hi, heq]
    · intro j hrepeat
      by_contra hlt
      have hj : j < before.length := Nat.not_le.mp hlt
      exact hnone j ((repeatsAt_append_iff hj).mp hrepeat)

/-- The search finds what stands at the first position that repeats an earlier one. -/
theorem firstRepeat?_eq_some_iff_isLeast {os : List OutPoint} {o : OutPoint} :
    firstRepeat? [] os = some o ↔ ∃ j, IsLeast {j | RepeatsAt os j} j ∧ os[j]? = some o := by
  simp only [firstRepeat?_eq_some_iff, firstRepeat?_eq_none_iff, List.not_mem_nil, false_or,
    not_false_eq_true, implies_true, and_true]
  constructor
  · rintro ⟨before, after, rfl, hfirst⟩
    exact ⟨before.length, isLeast_repeatsAt_iff.mpr hfirst, by simp⟩
  · rintro ⟨j, hleast, hj⟩
    obtain ⟨hlt, rfl⟩ := List.getElem?_eq_some_iff.mp hj
    -- The list is taken apart at the position, where the other side speaks of a split.
    have hsplit : os = os.take j ++ os[j] :: os.drop (j + 1) := by
      rw [← List.drop_eq_getElem_cons hlt, List.take_append_drop]
    have hlength : (os.take j).length = j := by rw [List.length_take, Nat.min_eq_left hlt.le]
    have hfirst := @isLeast_repeatsAt_iff (os.take j) (os.drop (j + 1)) os[j]
    rw [← hsplit, hlength] at hfirst
    exact ⟨os.take j, os.drop (j + 1), hsplit, hfirst.mp hleast⟩

/-! ## An ordered set of what was seen -/

/-- The search with a search tree that holds what was seen, in the order of outpoints. -/
def firstRepeatIn? : Std.TreeSet OutPoint → List OutPoint → Option OutPoint
  | _, [] => none
  | seen, o :: os => if o ∈ seen then some o else firstRepeatIn? (seen.insert o) os

/-- A tree and a list that hold the same lead to the same repeat. -/
theorem firstRepeatIn?_eq {tree : Std.TreeSet OutPoint} {seen os : List OutPoint}
    (h : ∀ o, o ∈ tree ↔ o ∈ seen) : firstRepeatIn? tree os = firstRepeat? seen os := by
  induction os generalizing tree seen with
  | nil => rfl
  | cons o os ih =>
    have hinsert : ∀ p, p ∈ tree.insert o ↔ p ∈ o :: seen := by
      intro p
      rw [Std.TreeSet.mem_insert, Std.LawfulEqOrd.compare_eq_iff_eq, List.mem_cons, h, eq_comm]
    rw [firstRepeatIn?, firstRepeat?, ih hinsert]
    by_cases ho : o ∈ seen
    · rw [if_pos ((h o).mpr ho), if_pos ho]
    · rw [if_neg (mt (h o).mp ho), if_neg ho]

/-! ## The check -/

theorem checkSet_eq_error_iff {os : List OutPoint} {max : UInt64} {e : Rejection} :
    checkSet os max = .error e ↔
      ((os = [] ∨ max.toNat < os.length) ∧ e = .emptyOrExcessiveCollateral os.length max) ∨
      ((os ≠ [] ∧ os.length ≤ max.toNat) ∧
        ∃ o, firstRepeat? [] os = some o ∧ e = .duplicateCollateral o) := by
  simp only [checkSet, List.isEmpty_iff]
  by_cases hcount : os = [] ∨ max.toNat < os.length
  · have hnot : ¬(os ≠ [] ∧ os.length ≤ max.toNat) := by
      rwa [← Nat.not_lt, ← not_or, not_not]
    simp [hcount, hnot, eq_comm]
  · have hwithin : os ≠ [] ∧ os.length ≤ max.toNat := by
      rwa [← Nat.not_lt, ← not_or]
    rw [if_neg hcount]
    cases firstRepeat? [] os <;> simp [hwithin, eq_comm]

/-- **The check of a list of outpoints by itself.** It refuses a list without elements or with more
than are allowed, with both numbers; then a list with a repeat, with the outpoint at the first
position that repeats an earlier one; and nothing else. So it accepts exactly the lists of allowed
length in which no two outpoints agree in hash and position. It may look for repeats in an ordered
set: the order of outpoints is a total one, in which the bytes of the hash decide and then the
position, and two outpoints are equal in it only if they agree in both. -/
theorem checkSet_exact (os : List OutPoint) (max : UInt64) :
    (∀ e, checkSet os max = .error e ↔
      ((os = [] ∨ max.toNat < os.length) ∧ e = .emptyOrExcessiveCollateral os.length max) ∨
      ((os ≠ [] ∧ os.length ≤ max.toNat) ∧ ∃ o,
        (∃ j, IsLeast {j | RepeatsAt os j} j ∧ os[j]? = some o) ∧ e = .duplicateCollateral o)) ∧
    (checkSet os max = .ok () ↔ os ≠ [] ∧ os.length ≤ max.toNat ∧
      os.Pairwise fun o p ↦ ¬(o.txid = p.txid ∧ o.index = p.index)) ∧
    firstRepeatIn? ∅ os = firstRepeat? [] os ∧
    Std.TransOrd OutPoint ∧
    ∀ o p : OutPoint,
      (compare o p = .eq ↔ o.txid = p.txid ∧ o.index = p.index) ∧
      (compare o p = .lt ↔
        o.txid.toList < p.txid.toList ∨ o.txid = p.txid ∧ o.index < p.index) := by
  refine ⟨?_, ?_, ?_, inferInstance, ?_⟩
  · intro e
    simp only [checkSet_eq_error_iff, firstRepeat?_eq_some_iff_isLeast]
  · have hdistinct : os.Nodup ↔ os.Pairwise fun o p ↦ ¬(o.txid = p.txid ∧ o.index = p.index) := by
      simp only [← OutPoint.compare_eq_eq_iff, Std.LawfulEqOrd.compare_eq_iff_eq]
      rfl
    rw [checkSet_eq_ok_iff, hdistinct, Nat.one_le_iff_ne_zero, ne_eq, List.length_eq_zero_iff]
    exact and_rotate
  · exact firstRepeatIn?_eq fun o ↦ by simp
  · intro o p
    exact ⟨OutPoint.compare_eq_eq_iff, OutPoint.compare_eq_lt_iff⟩

end Collateral

end NodeAdmission
