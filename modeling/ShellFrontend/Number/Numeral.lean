import ShellFrontend.Number.Shortest
import ShellFrontend.Text.Digits

/-! # Numerals

The text of a number is positional: digits, and a fraction after a point if there is
one. Reading is wider and also takes a sign and an exponent.
-/

set_option autoImplicit false

namespace ShellFrontend

open Text (isDigit)
open Text.Digits

namespace Numeral

/-- Splits off an optional sign; `true` is a minus. -/
def sign : List Char → Bool × List Char
  | '-' :: rest => (true, rest)
  | '+' :: rest => (false, rest)
  | text => (false, text)

/-- The exponent after the digits: nothing, or a letter, an optional sign and digits. -/
def exponent? : List Char → Option Int
  | [] => some 0
  | c :: rest =>
    let (negative, digits) := sign rest
    if (c = 'e' || c = 'E') && !digits.isEmpty && digits.all isDigit then
      some (if negative then -(value digits : Int) else value digits)
    else none

end Numeral

namespace Decimal

/-- Digits with at most one point among or around them, and an exponent. -/
def ofText? (text : List Char) : Option Decimal :=
  let whole := text.takeWhile isDigit
  let afterWhole := text.dropWhile isDigit
  let (fraction, rest) := match afterWhole with
    | '.' :: more => (more.takeWhile isDigit, more.dropWhile isDigit)
    | _ => ([], afterWhole)
  if whole.isEmpty && fraction.isEmpty then none
  else (Numeral.exponent? rest).map fun e => ⟨value (whole ++ fraction), e - fraction.length⟩

/-- All digits before the point, and after it those up to the last that is not zero. -/
def text (d : Decimal) : List Char :=
  let scaled := d.coefficient * Nat.pow 10 d.exponent.toNat
  let places := (-d.exponent).toNat
  let fraction := trimZeros (padded places (scaled % Nat.pow 10 places))
  Nat.toDigits 10 (scaled / Nat.pow 10 places) ++ if fraction.isEmpty then [] else '.' :: fraction

end Decimal

namespace Binary64

/-- The number that a text denotes; one too large for a finite number is infinite. -/
def ofText? (text : List Char) : Option Binary64 :=
  let (negative, digits) := Numeral.sign text
  (Decimal.ofText? digits).map (·.toBinary64 negative)

def text (x : Binary64) : List Char :=
  if x.isNaN then ['N', 'a', 'N']
  else
    let digits := if x.isFinite then (shortest x.magnitude).text else ['i', 'n', 'f']
    if x.negative then '-' :: digits else digits

end Binary64

end ShellFrontend
