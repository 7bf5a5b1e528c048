import Mathlib.Algebra.Group.TypeTags.Basic
import Mathlib.Data.ZMod.Basic
import Mathlib.FieldTheory.Finite.Basic
import Mathlib.Tactic.Ring
import NodeAdmission.Curve.Residue
/-!
# The arithmetic of residues

Repetition by halving is a multiple or a power, whatever the operation, as soon as the operation is
that of a commutative monoid (`repeated_eq`). Euclid's algorithm with coefficients gives an inverse
of every residue that is coprime to the modulus (`mul_inv_eq_one`), so the residues modulo a prime
are a field with that inverse (`Residue.field`). Where the prime leaves remainder three modulo four,
one power is a square root of every square (`sqrt?_mul_self`); where it leaves remainder one modulo
three, one power tells residues that are no cubes (`pow_cube_eq_one`).
-/

namespace NodeAdmission.Curve

/-! ## Repetition -/

/-- A map that respects an operation respects its repetition. It need do so only on a set that is
closed under the operation. By the recursion of `repeated`. -/
theorem map_repeated {α β : Type} {op : α → α → α} {op' : β → β → β} (f : α → β) (S : α → Prop)
    (hclosed : ∀ {a b}, S a → S b → S (op a b))
    (hop : ∀ {a b}, S a → S b → f (op a b) = op' (f a) (f b)) {start x : α} (hstart : S start)
    (hx : S x) (count : ℕ) :
    f (repeated op start x count) = repeated op' (f start) (f x) count := by
  induction count using Nat.strong_induction_on generalizing start x with
  | _ count ih =>
    rw [repeated.eq_def op, repeated.eq_def op']
    by_cases hzero : count = 0
    · rw [if_pos hzero, if_pos hzero]
    · have hstart' : S (if count % 2 = 1 then op start x else start) := by
        split
        · exact hclosed hstart hx
        · exact hstart
      have hx' : S (if count = 1 then x else op x x) := by
        split
        · exact hx
        · exact hclosed hx hx
      rw [if_neg hzero, if_neg hzero, ih _ (by omega) hstart' hx', apply_ite f, apply_ite f,
        hop hstart hx, hop hx hx]

/-- In a monoid, repetition is a multiple: the count is halved while the element is doubled. -/
theorem repeated_add {M : Type} [AddCommMonoid M] (start x : M) (count : ℕ) :
    repeated (· + ·) start x count = start + count • x := by
  induction count using Nat.strong_induction_on generalizing start x with
  | _ count ih =>
    rw [repeated]
    by_cases hzero : count = 0
    · simp [hzero]
    have hstart : (if count % 2 = 1 then start + x else start) = start + (count % 2) • x := by
      rcases Nat.mod_two_eq_zero_or_one count with h | h <;> simp [h]
    rw [if_neg hzero, ih _ (by omega), hstart, add_assoc]
    congr 1
    by_cases hone : count = 1
    · simp [hone]
    · calc (count % 2) • x + (count / 2) • (if count = 1 then x else x + x)
          = (count % 2) • x + (2 * (count / 2)) • x := by
            rw [if_neg hone, ← two_nsmul, ← mul_nsmul, mul_comm]
        _ = count • x := by rw [← add_nsmul, Nat.mod_add_div]

/-- Where `op` is the addition of a monoid, seen through `f`, repetition is a multiple. -/
theorem repeated_eq {α M : Type} [AddCommMonoid M] (op : α → α → α) (f : M → α)
    (hop : ∀ a b, op (f a) (f b) = f (a + b)) (start x : M) (count : ℕ) :
    repeated op (f start) (f x) count = f (start + count • x) := by
  rw [← repeated_add]
  have hmap : ∀ {a b}, True → True → f (a + b) = op (f a) (f b) := fun _ _ ↦ (hop _ _).symm
  exact (map_repeated f (fun _ ↦ True) (fun _ _ ↦ trivial) hmap trivial trivial count).symm

namespace Residue

open scoped Fin.CommRing

variable {m : ℕ} [NeZero m]

theorem reduce_eq_natCast (a : Fin m) (k : ℕ) : reduce a k = (k : Fin m) := Fin.ext rfl

theorem pow_eq (a : Fin m) (k : ℕ) : pow a k = a ^ k := by
  have h := repeated_eq (· * ·) (Additive.toMul : Additive (Fin m) → Fin m) (fun a b ↦ rfl)
    (Additive.ofMul 1) (Additive.ofMul a) k
  rw [pow, reduce_eq_natCast, Nat.cast_one]
  simpa using h

/-! ## The inverse -/

/-- The sign that the flag of a coefficient stands for. -/
def sign (negative : Bool) : Fin m := if negative then -1 else 1

/-- **Euclid's invariant.** If each of two remainders is its signed coefficient times `a`, then so
is the last remainder, which is their greatest common divisor. -/
theorem sign_lastCoefficient_mul (a : Fin m) {r₀ r₁ t₀ t₁ : ℕ} {negative : Bool}
    (h₀ : sign negative * (t₀ : Fin m) * a = (r₀ : Fin m))
    (h₁ : sign (!negative) * (t₁ : Fin m) * a = (r₁ : Fin m)) :
    sign (lastCoefficient r₀ r₁ t₀ t₁ negative).2 *
      ((lastCoefficient r₀ r₁ t₀ t₁ negative).1 : Fin m) * a = ((r₀.gcd r₁ : ℕ) : Fin m) := by
  induction r₁ using Nat.strong_induction_on generalizing r₀ t₀ t₁ negative with
  | _ r₁ ih =>
    rw [lastCoefficient]
    by_cases hzero : r₁ = 0
    · rw [if_pos hzero, hzero, Nat.gcd_zero_right]
      exact h₀
    · rw [if_neg hzero, Nat.gcd_comm, Nat.gcd_rec, Nat.gcd_comm]
      refine ih _ (Nat.mod_lt _ (Nat.pos_of_ne_zero hzero)) h₁ ?_
      -- The next remainder is `r₀ - (r₀ / r₁) * r₁`, and the signs of the two alternate.
      have hmod : ((r₀ % r₁ : ℕ) : Fin m) =
          (r₀ : Fin m) - ((r₀ / r₁ : ℕ) : Fin m) * (r₁ : Fin m) := by
        rw [eq_sub_iff_add_eq, ← Nat.cast_mul, ← Nat.cast_add, mul_comm (r₀ / r₁),
          Nat.mod_add_div]
      have hflip : sign (!negative) = -(sign negative : Fin m) := by cases negative <;> simp [sign]
      rw [hflip] at h₁
      rw [hmod, ← h₀, ← h₁, Bool.not_not, Nat.cast_add, Nat.cast_mul]
      ring

theorem inv_eq (a : Fin m) :
    inv a = sign (lastCoefficient m a.val 0 1 true).2 *
      ((lastCoefficient m a.val 0 1 true).1 : Fin m) := by
  rw [inv]
  rcases lastCoefficient m a.val 0 1 true with ⟨t, _ | _⟩
  · simp [sign, reduce_eq_natCast]
  · simp [sign, reduce_eq_natCast]

theorem mul_inv_eq_one {a : Fin m} (h : m.Coprime a.val) : a * inv a = 1 := by
  have hgcd : sign (lastCoefficient m a.val 0 1 true).2 *
      ((lastCoefficient m a.val 0 1 true).1 : Fin m) * a = ((m.gcd a.val : ℕ) : Fin m) :=
    sign_lastCoefficient_mul a (by simp) (by simp [sign])
  rw [← inv_eq, Nat.Coprime.gcd_eq_one h, Nat.cast_one, mul_comm] at hgcd
  exact hgcd

@[simp] theorem inv_zero : inv (0 : Fin m) = 0 := by
  have h : lastCoefficient m 0 0 1 true = (0, true) := by rw [lastCoefficient, if_pos rfl]
  rw [inv_eq, Fin.val_zero, h]
  simp

/-! ## The field, for a prime modulus -/

/-- The field of the residues modulo a prime, with the inverse that is computed. -/
@[reducible] def field (hm : m.Prime) : Field (Fin m) where
  inv := inv
  div a b := a * inv b
  exists_pair_ne :=
    have := Fin.nontrivial_iff_two_le.mpr hm.two_le
    exists_pair_ne _
  mul_inv_cancel a ha :=
    mul_inv_eq_one (Nat.coprime_of_lt_prime (fun h ↦ ha (Fin.ext h)) a.isLt hm)
  inv_zero := inv_zero
  nnqsmul := _
  qsmul := _

/-- Of a square, the computed root is the root that was squared, or its opposite. -/
theorem sqrt?_mul_self (hm : m.Prime) (hfour : m % 4 = 3) (y : Fin m) :
    sqrt? (y * y) = some y ∨ sqrt? (y * y) = some (-y) := by
  let := field hm
  have hpow : y ^ (m + 1) = y ^ 2 := by
    have h := FiniteField.pow_card y
    rw [Fintype.card_fin] at h
    rw [pow_succ, h, pow_two]
  -- The root is `y ^ ((m + 1) / 2)`, whose square is `y ^ (m + 1)`.
  have hroot : pow (y * y) ((m + 1) / 4) * pow (y * y) ((m + 1) / 4) = y * y := by
    have hexp : 2 * ((m + 1) / 4) + 2 * ((m + 1) / 4) = m + 1 := by omega
    rw [pow_eq, ← pow_two y, ← pow_mul, ← pow_add, hexp, hpow]
  rw [sqrt?, if_pos hroot]
  exact (mul_self_eq_mul_self_iff.mp hroot).imp (congrArg some) (congrArg some)

omit [NeZero m] in
theorem mul_self_of_sqrt? {a y : Fin m} (h : sqrt? a = some y) : y * y = a := by
  obtain ⟨hroot, hy⟩ := Option.ite_none_right_eq_some.mp h
  exact Option.some.inj hy ▸ hroot

theorem pow_cube_eq_one (hm : m.Prime) (hthree : m % 3 = 1) {x : Fin m} (h : x ≠ 0) :
    pow (x * x * x) ((m - 1) / 3) = 1 := by
  let := field hm
  have hone : x ^ (m - 1) = 1 := by
    have hcard := FiniteField.pow_card_sub_one_eq_one x h
    rwa [Fintype.card_fin] at hcard
  have hexp : 3 * ((m - 1) / 3) = m - 1 := by omega
  rw [pow_eq, ← pow_three', ← pow_mul, hexp, hone]

end Residue

end NodeAdmission.Curve
