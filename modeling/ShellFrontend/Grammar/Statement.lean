import ShellFrontend.Grammar.Expression

/-! # Statements and blocks

A statement is a binding, a result or an expression, each with an end, or a block. A
block is a list of statements between braces; terminators between them are skipped.
-/

set_option autoImplicit false

namespace ShellFrontend

namespace Statement

/-- The end of a statement. A terminator is taken; a closing brace or the end of the
tokens ends the statement too, but is left. -/
def ending : Parser Unit :=
  .select fun
    | .terminator => Advancing.skip .terminator
    | .closeBrace | .endOfInput => pure ()
    | .illegal => .fail fun token => .illegal token.text
    | _ => .fail fun token =>
      .misplaced token.text "expected \x60;\x60 or a newline to end the statement"

def binding (layer : Layer) : Advancing Stmt :=
  (Advancing.token .letWord).andThen fun _ => do
    let name ← (Advancing.token .identifier).toParser
    Advancing.skip .assign
    let value ← (layer.expr .lowest).toParser
    ending
    pure (.binding name.text value)

def result (layer : Layer) : Advancing Stmt :=
  (Advancing.token .returnWord).andThen fun _ => do
    let value ← (layer.expr .lowest).toParser
    ending
    pure (.result value)

def block (layer : Layer) : Advancing Stmt :=
  layer.block.map .block

def expression (layer : Layer) : Advancing Stmt :=
  (layer.expr .lowest).andThen fun value => do
    ending
    pure (.expression value)

end Statement

def StatementRule.parser (layer : Layer) : StatementRule → Advancing Stmt
  | binding => Statement.binding layer
  | result => Statement.result layer
  | block => Statement.block layer

/-- The rule for the first token reads a statement; without one it is an expression. -/
def statement (rules : Rules) (layer : Layer) : Advancing Stmt :=
  .select fun kind => .starting kind <|
    match rules.statement kind with
    | some rule => rule.parser layer
    | none => Statement.expression layer

/-- What may stand in a block: a closing brace, an empty statement or a statement. -/
def Block.turn (rules : Rules) (layer : Layer) : Kind → Turn (Option Stmt)
  | .closeBrace => .stop (Advancing.skip .closeBrace)
  | .endOfInput => .stop (.fail fun _ => .unclosedBlock)
  | .terminator => .more ((Advancing.token .terminator).map fun _ => none)
  | _ => .more ((statement rules layer).map some)

def bracedBlock (rules : Rules) (layer : Layer) : Advancing (List Stmt) :=
  (Advancing.token .openBrace).andThen fun _ => do
    let entries ← Parser.many (Block.turn rules layer)
    pure (entries.filterMap id)

/-- The layer in which a number of levels may still be opened. -/
def Layer.ofLevels (rules : Rules) : Nat → Layer
  | 0 => .closed
  | levels + 1 =>
    let inner := ofLevels rules levels
    ⟨expression rules inner, bracedBlock rules inner⟩

end ShellFrontend
