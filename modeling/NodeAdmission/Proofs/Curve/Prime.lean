import Mathlib.NumberTheory.LucasPrimality
import Mathlib.Tactic.NormNum.Prime
import NodeAdmission.Curve.Point
import NodeAdmission.Proofs.Curve.Residue
/-!
# The two fields of the curve

Both the number of coordinates and the number of points are prime, so that coordinates and scalars
are fields. Each number has a certificate of Pratt's
kind: a list of numbers, every one with a primitive root and with the prime divisors of its
predecessor, where a divisor is one of `smallPrimes` or stands earlier on the list.
Residue powers are those of the curve's own arithmetic, so that the kernel checks a certificate in a
few hundred multiplications for each exponent.
-/

namespace NodeAdmission.Curve

/-! ## Certificates -/

/-- The claim that a number is prime, with the data of Lucas's test. -/
structure PrimeClaim where
  /-- The number. -/
  number : ℕ
  /-- A primitive root. -/
  root : ℕ
  /-- The prime divisors of the number's predecessor, each as often as it divides. -/
  divisors : List ℕ

namespace PrimeClaim

/-- The power of the claim's root is one. -/
def rootPowIsOne (c : PrimeClaim) (k : ℕ) : Bool :=
  if h : c.number = 0 then false
  else
    haveI : NeZero c.number := ⟨h⟩
    Residue.pow (Fin.ofNat c.number c.root) k == Fin.ofNat c.number 1

/-- Lucas's test, given numbers that are known to be prime. -/
def passes (known : List ℕ) (c : PrimeClaim) : Bool :=
  c.divisors.prod == c.number - 1 && c.divisors.all known.contains &&
    c.rootPowIsOne (c.number - 1) &&
    c.divisors.all fun q ↦ !c.rootPowIsOne ((c.number - 1) / q)

/-- Every claim of a list passes, given those before it. -/
def allPass (known : List ℕ) : List PrimeClaim → Bool
  | [] => true
  | c :: cs => c.passes known && allPass (c.number :: known) cs

open scoped Fin.CommRing in
theorem rootPowIsOne_iff {c : PrimeClaim} (h : c.number ≠ 0) (k : ℕ) :
    c.rootPowIsOne k = true ↔ (c.root : ZMod c.number) ^ k = 1 := by
  have : NeZero c.number := ⟨h⟩
  have hroot : ZMod.finEquiv c.number (Fin.ofNat c.number c.root) = (c.root : ZMod c.number) :=
    map_natCast (ZMod.finEquiv c.number) c.root
  rw [rootPowIsOne, dif_neg h, beq_iff_eq, Residue.pow_eq, ← hroot, ← map_pow]
  exact ((ZMod.finEquiv c.number).map_eq_one_iff).symm

theorem prime_of_passes {known : List ℕ} (hknown : ∀ q ∈ known, q.Prime) {c : PrimeClaim}
    (h : c.passes known = true) : c.number.Prime := by
  simp only [passes, Bool.and_eq_true, beq_iff_eq, List.all_eq_true, Bool.not_eq_true',
    List.contains_iff_mem] at h
  obtain ⟨⟨⟨hprod, hdivisors⟩, hone⟩, hnotOne⟩ := h
  have hnumber : c.number ≠ 0 := by
    intro hzero
    rw [rootPowIsOne, dif_pos hzero] at hone
    cases hone
  refine lucas_primality c.number c.root ((rootPowIsOne_iff hnumber _).mp hone) ?_
  intro q hq hdvd
  -- A prime that divides the predecessor is one of the listed divisors.
  rw [← hprod, hq.prime.dvd_prod_iff] at hdvd
  obtain ⟨r, hr, hqr⟩ := hdvd
  obtain rfl : q = r := (Nat.prime_dvd_prime_iff_eq hq (hknown r (hdivisors r hr))).mp hqr
  rw [ne_eq, ← rootPowIsOne_iff hnumber, hnotOne q hr]
  exact Bool.false_ne_true

theorem prime_of_allPass {known : List ℕ} {cs : List PrimeClaim}
    (hknown : ∀ q ∈ known, q.Prime) (h : allPass known cs = true) :
    ∀ c ∈ cs, c.number.Prime := by
  induction cs generalizing known with
  | nil => simp
  | cons c cs ih =>
    obtain ⟨hc, hcs⟩ := Bool.and_eq_true_iff.mp h
    have hprime := prime_of_passes hknown hc
    exact List.forall_mem_cons.mpr
      ⟨hprime, ih (List.forall_mem_cons.mpr ⟨hprime, hknown⟩) hcs⟩

/-! ## The two certificates -/

/-- Primes that need no certificate. -/
def smallPrimes : List ℕ :=
  [2, 3, 5, 7, 11, 17, 19, 29, 31, 41, 53, 59, 97, 101, 109, 113, 149, 239, 293, 461, 631, 797, 971,
   1373, 1627, 1871, 2011, 2621, 2657, 2731, 2861, 4051, 4423, 5323, 7723, 9349, 13441, 16699,
   20113, 24809, 28181, 41201, 85831, 96557, 120233, 305873]

theorem prime_of_mem_smallPrimes : ∀ q ∈ smallPrimes, q.Prime := by norm_num [smallPrimes]

/-- The certificate of the number of coordinates. -/
def ofFieldOrder : List PrimeClaim :=
  [⟨1206781, 10, [2, 2, 3, 5, 20113]⟩,
   ⟨7240687, 3, [2, 3, 1206781]⟩,
   ⟨107590001, 3, [2, 2, 2, 2, 5, 5, 5, 5, 7, 29, 53]⟩,
   ⟨255515944373312847190720520512484175977, 3,
    [2, 2, 2, 7, 7, 11, 1627, 2657, 4423, 41201, 96557, 7240687, 107590001]⟩,
   ⟨13331831, 13, [2, 5, 971, 1373]⟩,
   ⟨173378833005251801, 6, [2, 2, 2, 5, 5, 2621, 24809, 13331831]⟩,
   ⟨22149492674086928081353, 5, [2, 2, 2, 3, 5323, 173378833005251801]⟩,
   ⟨132896956044521568488119, 6, [2, 3, 22149492674086928081353]⟩,
   ⟨205115282021455665897114700593932402728804164701536103180137503955397371, 10,
    [2, 3, 5, 29, 29, 31, 7723, 132896956044521568488119,
     255515944373312847190720520512484175977]⟩,
   ⟨fieldOrder, 3,
    [2, 3, 7, 13441, 205115282021455665897114700593932402728804164701536103180137503955397371]⟩]

/-- The certificate of the number of points. -/
def ofGroupOrder : List PrimeClaim :=
  [⟨44706919, 6, [2, 3, 797, 9349]⟩,
   ⟨174723607534414371449, 3, [2, 2, 2, 17, 59, 4051, 120233, 44706919]⟩,
   ⟨4681609, 23, [2, 2, 2, 3, 97, 2011]⟩,
   ⟨107361793816595537, 3, [2, 2, 2, 2, 16699, 85831, 4681609]⟩,
   ⟨1627771, 3, [2, 3, 5, 29, 1871]⟩,
   ⟨297159362677, 2, [2, 2, 3, 3, 11, 461, 1627771]⟩,
   ⟨545358713, 5, [2, 2, 2, 41, 59, 28181]⟩,
   ⟨29047611873442575647497758179, 2, [2, 293, 305873, 545358713, 297159362677]⟩,
   ⟨341948486974166000522343609283189, 2,
    [2, 2, 3, 3, 3, 109, 29047611873442575647497758179]⟩,
   ⟨groupOrder, 7,
    [2, 2, 2, 2, 2, 2, 3, 149, 631, 107361793816595537, 174723607534414371449,
     341948486974166000522343609283189]⟩]

end PrimeClaim

theorem prime_fieldOrder : fieldOrder.Prime := by
  have hpass : PrimeClaim.allPass PrimeClaim.smallPrimes PrimeClaim.ofFieldOrder = true := by
    decide +kernel
  exact PrimeClaim.prime_of_allPass PrimeClaim.prime_of_mem_smallPrimes hpass _
    (List.getLast_mem (by simp [PrimeClaim.ofFieldOrder]))

theorem prime_groupOrder : groupOrder.Prime := by
  have hpass : PrimeClaim.allPass PrimeClaim.smallPrimes PrimeClaim.ofGroupOrder = true := by
    decide +kernel
  exact PrimeClaim.prime_of_allPass PrimeClaim.prime_of_mem_smallPrimes hpass _
    (List.getLast_mem (by simp [PrimeClaim.ofGroupOrder]))

instance : Field Coordinate := Residue.field prime_fieldOrder

instance : Field Scalar := Residue.field prime_groupOrder

end NodeAdmission.Curve
