import Mathlib.Data.List.TakeWhile
import Mathlib.Data.Nat.Digits.Defs
import NodeAdmission.Text.Blank
import NodeAdmission.Text.Decimal
/-!
# Numbers as text

What `trim` and `numeral?` compute, said without following them: the text without the white space at
its ends (`IsTrimmed`), and a run of decimal digits with the number that its digits stand for
(`IsNumeral`). Each relation is a function of the text, so together they say which number a text
spells, if any (`SpellsNumber`).

The value of a numeral is read from its end, where the digits have their weights; `numeral?` reads
from the start and multiplies. Numbers have no bound here, so that a long numeral cannot be taken
for another one.
-/

namespace NodeAdmission.Text

/-! ## White space at the ends -/

/-- The text is `core` with white space around it, and `core` neither begins nor ends with any. -/
def IsTrimmed (text core : List Char) : Prop :=
  (∃ before after, text = before ++ core ++ after ∧
    (∀ c ∈ before, isBlank c = true) ∧ ∀ c ∈ after, isBlank c = true) ∧
  (∀ c ∈ core.head?, isBlank c = false) ∧ ∀ c ∈ core.getLast?, isBlank c = false

theorem dropWhile_isBlank_append {before text : List Char} (hbefore : ∀ c ∈ before, isBlank c = true)
    (htext : ∀ c ∈ text.head?, isBlank c = false) :
    (before ++ text).dropWhile isBlank = text := by
  rw [List.dropWhile_append_of_pos hbefore]
  cases text with
  | nil => rfl
  | cons c cs => exact List.dropWhile_cons_of_neg (by simp [htext c rfl])

theorem trimEnd_append {text after : List Char} (hafter : ∀ c ∈ after, isBlank c = true)
    (htext : ∀ c ∈ text.getLast?, isBlank c = false) : trimEnd (text ++ after) = text := by
  rw [trimEnd, List.reverse_append, dropWhile_isBlank_append, List.reverse_reverse]
  · exact fun c hc ↦ hafter c (List.mem_reverse.mp hc)
  · rwa [List.head?_reverse]

theorem isTrimmed_trim (text : List Char) : IsTrimmed text (trim text) := by
  let front := text.takeWhile isBlank
  let core := text.dropWhile isBlank
  let back := (core.reverse.takeWhile isBlank).reverse
  have hcore : trim text ++ back = core := by
    rw [trim, trimEnd, ← List.reverse_append, List.takeWhile_append_dropWhile, List.reverse_reverse]
  have hfront : ∀ c ∈ front, isBlank c = true := fun c hc ↦ List.mem_takeWhile_imp hc
  have hback : ∀ c ∈ back, isBlank c = true :=
    fun c hc ↦ List.mem_takeWhile_imp (List.mem_reverse.mp hc)
  refine ⟨⟨front, back, ?_, hfront, hback⟩, ?_, ?_⟩
  · rw [List.append_assoc, hcore, List.takeWhile_append_dropWhile]
  · intro c hc
    -- What is left begins as the text does without the white space in front.
    have hhead : core.head? = some c := by
      rw [← hcore, List.head?_append, Option.mem_def.mp hc]
      rfl
    have hnot := List.head?_dropWhile_not isBlank text
    rwa [hhead] at hnot
  · intro c hc
    have hnot := List.head?_dropWhile_not isBlank core.reverse
    rw [trim, trimEnd, List.getLast?_reverse, Option.mem_def] at hc
    rwa [hc] at hnot

/-- Trimming is taking off all the white space at both ends. -/
theorem trim_eq_iff {text core : List Char} : trim text = core ↔ IsTrimmed text core := by
  constructor
  · rintro rfl
    exact isTrimmed_trim text
  · rintro ⟨⟨before, after, rfl, hbefore, hafter⟩, hhead, hlast⟩
    rw [trim, List.append_assoc]
    by_cases hcore : core = []
    · -- All is white space, and the first sweep takes it all.
      rw [hcore, List.nil_append, List.dropWhile_append_of_pos hbefore,
        List.dropWhile_eq_nil_iff.mpr hafter]
      rfl
    · have hfirst : ∀ c ∈ (core ++ after).head?, isBlank c = false := by
        rwa [List.head?_append, List.head?_eq_some_head hcore, Option.some_or,
          ← List.head?_eq_some_head hcore]
      rw [dropWhile_isBlank_append hbefore hfirst, trimEnd_append hafter hlast]

/-! ## Numerals -/

/-- The number that a run of digits stands for: the last digit is the ones. -/
def decimalValue (digits : List Char) : ℕ :=
  Nat.ofDigits 10 (digits.reverse.map fun c ↦ c.toNat - '0'.toNat)

/-- The text is at most one plus sign and then decimal digits, at least one, that stand for `n`. -/
def IsNumeral (text : List Char) (n : ℕ) : Prop :=
  ∃ sign digits, text = sign ++ digits ∧ (sign = [] ∨ sign = ['+']) ∧ digits ≠ [] ∧
    (∀ c ∈ digits, c.isDigit = true) ∧ n = decimalValue digits

@[simp] theorem decimalValue_nil : decimalValue [] = 0 := rfl

theorem decimalValue_cons (c : Char) (cs : List Char) :
    decimalValue (c :: cs) = (c.toNat - '0'.toNat) * 10 ^ cs.length + decimalValue cs := by
  simp only [decimalValue, List.reverse_cons, List.map_append, List.map_cons, List.map_nil,
    Nat.ofDigits_append, Nat.ofDigits_singleton, List.length_map, List.length_reverse]
  ring

theorem digit?_eq_some_iff {c : Char} {d : ℕ} :
    digit? c = some d ↔ c.isDigit = true ∧ d = c.toNat - '0'.toNat := by
  have hdigit : c.isDigit = true ↔ '0' ≤ c ∧ c ≤ '9' := by
    rw [Char.isDigit, Bool.and_eq_true, decide_eq_true_eq, decide_eq_true_eq]
    rfl
  rw [hdigit, digit?, Option.ite_none_right_eq_some, Option.some.injEq, eq_comm (a := d)]

/-- Reading digits from the start gives what they stand for, behind what was read before. -/
theorem digitsFrom?_eq_some_iff {cs : List Char} {value n : ℕ} :
    digitsFrom? value cs = some n ↔
      (∀ c ∈ cs, c.isDigit = true) ∧ n = value * 10 ^ cs.length + decimalValue cs := by
  induction cs generalizing value with
  | nil =>
    rw [digitsFrom?, Option.some.injEq, List.length_nil, pow_zero, mul_one, decimalValue_nil,
      add_zero, eq_comm]
    exact (and_iff_right (List.forall_mem_nil _)).symm
  | cons c cs ih =>
    have hstep : digitsFrom? value (c :: cs) = some n ↔
        ∃ d, digit? c = some d ∧ digitsFrom? (10 * value + d) cs = some n :=
      Option.bind_eq_some_iff
    simp only [hstep, digit?_eq_some_iff, ih, List.forall_mem_cons, decimalValue_cons,
      List.length_cons]
    constructor
    · rintro ⟨_, ⟨hc, rfl⟩, hcs, rfl⟩
      refine ⟨⟨hc, hcs⟩, ?_⟩
      ring
    · rintro ⟨⟨hc, hcs⟩, rfl⟩
      refine ⟨_, ⟨hc, rfl⟩, hcs, ?_⟩
      ring

theorem digits?_eq_some_iff {cs : List Char} {n : ℕ} :
    digits? cs = some n ↔ cs ≠ [] ∧ (∀ c ∈ cs, c.isDigit = true) ∧ n = decimalValue cs := by
  rw [digits?, Option.ite_none_left_eq_some, List.isEmpty_iff, digitsFrom?_eq_some_iff, zero_mul,
    zero_add]

/-- Reading a numeral gives the number of its digits, and reads nothing else. -/
theorem numeral?_eq_some_iff {text : List Char} {n : ℕ} :
    numeral? text = some n ↔ IsNumeral text n := by
  constructor
  · intro h
    unfold numeral? at h
    split at h
    · next cs => exact ⟨['+'], cs, rfl, .inr rfl, digits?_eq_some_iff.mp h⟩
    · exact ⟨[], text, rfl, .inl rfl, digits?_eq_some_iff.mp h⟩
  · rintro ⟨sign, digits, rfl, rfl | rfl, hne, hdigits, hvalue⟩
    · rw [List.nil_append]
      unfold numeral?
      split
      · -- A run of digits does not begin with a plus sign.
        exact absurd (hdigits '+' List.mem_cons_self) (by decide)
      · exact digits?_eq_some_iff.mpr ⟨hne, hdigits, hvalue⟩
    · exact digits?_eq_some_iff.mpr ⟨hne, hdigits, hvalue⟩

/-! ## The number that a text spells -/

/-- Without the white space at its ends, the text is a numeral for `n`. -/
def SpellsNumber (text : List Char) (n : ℕ) : Prop := ∃ core, IsTrimmed text core ∧ IsNumeral core n

theorem spellsNumber_iff {text : List Char} {n : ℕ} :
    SpellsNumber text n ↔ numeral? (trim text) = some n := by
  simp only [SpellsNumber, ← trim_eq_iff, ← numeral?_eq_some_iff, exists_eq_left']

theorem SpellsNumber.unique {text : List Char} {n n' : ℕ} (h : SpellsNumber text n)
    (h' : SpellsNumber text n') : n = n' :=
  Option.some.inj ((spellsNumber_iff.mp h).symm.trans (spellsNumber_iff.mp h'))

end NodeAdmission.Text
