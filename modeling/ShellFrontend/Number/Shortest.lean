import ShellFrontend.Number.Rounding

/-! # Shortest decimals

A finite magnitude is written as the decimal with the fewest digits that rounds back to
it, and of those as the nearest. Every magnitude is a whole multiple of `10 ^ (-1074)`,
so the search runs over grids of that many places and coarser ones.
-/

set_option autoImplicit false

namespace ShellFrontend.Shortest

/-- The decimal places of the least positive magnitude. -/
def places : Nat := 1074

/-- The value of a magnitude, as a multiple of `10 ^ (-1074)`. -/
def multiple (magnitude : Nat) : Nat :=
  Binary64.units magnitude * Nat.pow 5 places

/-- A point of the grid of multiples of `10 ^ (step - 1074)`. -/
def point (step coefficient : Nat) : Decimal :=
  ⟨coefficient, (step : Int) - (places : Int)⟩

/-- The neighbour of a value on a grid that rounds back to it. Of two the nearer is
taken, and halfway between them the upper one. -/
def onGrid? (magnitude value step : Nat) : Option Decimal :=
  let lower := point step (value / Nat.pow 10 step)
  let upper := point step (value / Nat.pow 10 step + 1)
  let lowerReads := lower.magnitude = magnitude
  let upperReads := upper.magnitude = magnitude
  let lowerNearer := 2 * (value % Nat.pow 10 step) < Nat.pow 10 step
  if lowerReads ∧ (lowerNearer ∨ ¬ upperReads) then some lower
  else if upperReads then some upper
  else none

/-- The coarsest grid with such a neighbour, from a grid downwards; the finest grid holds
the value itself. -/
def search (magnitude value : Nat) : Nat → Decimal
  | 0 => point 0 value
  | step + 1 => (onGrid? magnitude value (step + 1)).getD (search magnitude value step)

/-- A step that exceeds the value: `log 2 < 0.30103`. -/
def coarsest (value : Nat) : Nat :=
  (value.log2 + 1) * 30103 / 100000 + 1

end ShellFrontend.Shortest

namespace ShellFrontend

def Binary64.shortest (magnitude : Nat) : Decimal :=
  let value := Shortest.multiple magnitude
  Shortest.search magnitude value (Shortest.coarsest value)

end ShellFrontend
