import ShellFrontend.Number.Binary64

/-! # Rounding to binary64

A quotient of natural numbers, in units of `2 ^ (-1074)`, is rounded to the nearest
magnitude; a tie goes to the even one. A decimal is rounded as such a quotient.
-/

set_option autoImplicit false

namespace ShellFrontend

/-- The natural number nearest to a quotient, the even one of two. -/
def roundHalfEven (numerator denominator : Nat) : Nat :=
  let floor := numerator / denominator
  let twice := 2 * (numerator % denominator)
  if twice < denominator || (twice = denominator && floor % 2 = 0) then floor else floor + 1

/-- The magnitude nearest to a quotient of units. The significand keeps 53 bits, and a carry
out of it lands on the next exponent, because magnitudes are consecutive. -/
def Binary64.roundQuotient (numerator denominator : Nat) : Nat :=
  let shift := (numerator / denominator).log2 - 52
  min (shift <<< 52 + roundHalfEven numerator (denominator <<< shift)) infinite

/-- A coefficient times a power of ten. -/
structure Decimal where
  coefficient : Nat
  exponent : Int
  deriving DecidableEq, Repr

namespace Decimal

/-- No decimal from `10 ^ 400` on is finite. -/
def exponentCeiling : Nat := 400

/-- A decimal with more places than this is nearer to zero than to any other magnitude. -/
def placesCeiling (coefficient : Nat) : Nat :=
  coefficient.log2 + 401

def magnitude (d : Decimal) : Nat :=
  match d.exponent with
  | .ofNat e =>
    Binary64.roundQuotient ((d.coefficient * Nat.pow 10 (min e exponentCeiling)) <<< 1074) 1
  | .negSucc e =>
    Binary64.roundQuotient (d.coefficient <<< 1074)
      (Nat.pow 10 (min (e + 1) (placesCeiling d.coefficient)))

theorem magnitude_le_infinite (d : Decimal) : d.magnitude ≤ Binary64.infinite := by
  unfold magnitude
  split <;> exact Nat.min_le_right _ _

theorem magnitude_lt (d : Decimal) : d.magnitude < 1 <<< 63 :=
  Nat.lt_of_le_of_lt d.magnitude_le_infinite (by decide)

def toBinary64 (d : Decimal) (negative : Bool) : Binary64 :=
  ⟨negative, d.magnitude, d.magnitude_lt⟩

end Decimal

end ShellFrontend
