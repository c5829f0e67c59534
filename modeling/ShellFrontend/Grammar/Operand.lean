import ShellFrontend.Grammar.CommaList
import ShellFrontend.Grammar.Layer
import ShellFrontend.Number.Numeral

/-! # Operands

An operand is what stands beside an infix operator: a literal, a name or call, a prefix
operator with its operand, an expression in parentheses, a conditional or a function.
-/

set_option autoImplicit false

namespace ShellFrontend

namespace Operand

/-- The value of a literal token. A number must be finite. -/
def literal? (token : Token) : Option Expr :=
  match token.kind with
  | .number =>
    match Binary64.ofText? token.text.toList with
    | some value => if value.isFinite then some (.number value) else none
    | none => none
  | .string => some (.string token.text)
  | .command => some (.command token.text)
  | .trueWord => some (.boolean true)
  | .falseWord => some (.boolean false)
  | _ => none

def notLiteral (token : Token) : Cause :=
  if token.kind = .number then .malformedNumber token.text else .noOperand token.kind

def literal : Advancing Expr :=
  .accept literal? notLiteral

/-- A name, or a call when a parenthesis follows the name. -/
def identifier (layer : Layer) : Advancing Expr :=
  (Advancing.token .identifier).andThen fun name =>
    .select fun
      | .openParen => do
        let arguments ← (commaList "argument list" (layer.expr .lowest)).toParser
        pure (.call name.text arguments)
      | _ => pure (.identifier name.text)

def unary (layer : Layer) : Advancing Expr :=
  (Advancing.accept (fun token => UnaryOperator.ofKind? token.kind)
      fun token => .noOperand token.kind).andThen fun op => do
    let right ← (layer.expr .unary).toParser
    pure (.unary op right)

def grouping (layer : Layer) : Advancing Expr :=
  (Advancing.token .openParen).andThen fun _ => do
    let inner ← (layer.expr .lowest).toParser
    Advancing.skip .closeParen
    pure inner

def conditionOpening : Advancing Token :=
  .accept (fun token => if token.kind = .openParen then some token else none)
    fun token => .misplaced token.text "expected \x60(\x60 after \x60if\x60"

/-- The other branch of a conditional. Its word may stand on the line after the first. -/
def alternative (layer : Layer) : Parser (Option (List Stmt)) := do
  Parser.skipLineBreakBefore .elseWord
  .select fun
    | .elseWord => do
      Advancing.skip .elseWord
      let body ← layer.block.toParser
      pure (some body)
    | _ => pure none

def conditional (layer : Layer) : Advancing Expr :=
  (Advancing.token .ifWord).andThen fun _ => do
    let _ ← conditionOpening.toParser
    let condition ← (layer.expr .lowest).toParser
    Advancing.skip .closeParen
    let consequence ← layer.block.toParser
    let other ← alternative layer
    pure (.conditional condition consequence other)

def function (layer : Layer) : Advancing Expr :=
  (Advancing.token .fnWord).andThen fun _ => do
    let parameters ← (commaList "parameter list" (.token .identifier)).toParser
    let body ← layer.block.toParser
    pure (.function (parameters.map (·.text)) body)

end Operand

def OperandRule.parser (layer : Layer) : OperandRule → Advancing Expr
  | literal => Operand.literal
  | identifier => Operand.identifier layer
  | unary => Operand.unary layer
  | grouping => Operand.grouping layer
  | conditional => Operand.conditional layer
  | function => Operand.function layer

def Operand.notOperand (token : Token) : Cause :=
  if token.kind = .illegal then .illegal token.text else .noOperand token.kind

def operand (rules : Rules) (layer : Layer) : Advancing Expr :=
  .select fun kind =>
    match rules.operand kind with
    | some rule => rule.parser layer
    | none => .fail Operand.notOperand

end ShellFrontend
