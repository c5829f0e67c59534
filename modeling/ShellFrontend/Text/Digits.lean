/-! # Decimal digits

Runs of the ten ASCII digits and the natural numbers they stand for.
-/

set_option autoImplicit false

namespace ShellFrontend.Text

def isDigit (c : Char) : Bool :=
  '0' ≤ c && c ≤ '9'

namespace Digits

def value (digits : List Char) : Nat :=
  digits.foldl (fun n c => 10 * n + (c.toNat - '0'.toNat)) 0

/-- The digits of a number, with zeros in front up to a width. -/
def padded (width n : Nat) : List Char :=
  let digits := Nat.toDigits 10 n
  List.replicate (width - digits.length) '0' ++ digits

/-- The digits up to the last that is not zero. -/
def trimZeros (digits : List Char) : List Char :=
  (digits.reverse.dropWhile (· = '0')).reverse

end Digits

end ShellFrontend.Text
