import ShellFrontend.Grammar.Operand

/-! # Expressions

An expression is an operand and any number of infix operators with their right operands.
Each operator binds above a given power; its right operand is read above the operator's
own, so operators of equal power associate to the left.
-/

set_option autoImplicit false

namespace ShellFrontend

namespace Expression

def operation (layer : Layer) (power : Power) : Advancing (BinaryOperator × Expr) :=
  (Advancing.accept (fun token => BinaryOperator.ofKind? token.kind)
      fun token => .misplaced token.text "expected an infix operator").andThen fun op => do
    let right ← (layer.expr power).toParser
    pure (op, right)

def turn (rules : Rules) (layer : Layer) (floor : Power) (kind : Kind) :
    Turn (BinaryOperator × Expr) :=
  match rules.operator kind with
  | some power =>
    if floor.rank < power.rank then .more (operation layer power) else .stop (pure ())
  | none => .stop (pure ())

def combine (left : Expr) (step : BinaryOperator × Expr) : Expr :=
  .binary left step.1 step.2

end Expression

/-- An expression of operators above `floor`. -/
def expression (rules : Rules) (layer : Layer) (floor : Power) : Advancing Expr :=
  (operand rules layer).andThen fun first => do
    let steps ← Parser.many (Expression.turn rules layer floor)
    pure (steps.foldl Expression.combine first)

end ShellFrontend
