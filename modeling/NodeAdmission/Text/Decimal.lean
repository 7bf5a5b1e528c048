/-!
# Unsigned decimal numerals

A numeral is one or more ASCII digits, with at most one plus sign before them. Leading zeros are
allowed, and the value may be of any size.
-/

namespace NodeAdmission.Text

/-- The value of an ASCII digit. -/
def digit? (c : Char) : Option Nat :=
  if '0' ≤ c ∧ c ≤ '9' then some (c.toNat - '0'.toNat) else none

/-- The value of a run of digits that continues a numeral of value `value`. -/
def digitsFrom? (value : Nat) : List Char → Option Nat
  | [] => some value
  | c :: cs => digit? c >>= fun d ↦ digitsFrom? (10 * value + d) cs

/-- The value of a nonempty run of digits. -/
def digits? (cs : List Char) : Option Nat :=
  if cs.isEmpty then none else digitsFrom? 0 cs

/-- The value of a numeral. -/
def numeral? : List Char → Option Nat
  | '+' :: cs => digits? cs
  | cs => digits? cs

end NodeAdmission.Text
