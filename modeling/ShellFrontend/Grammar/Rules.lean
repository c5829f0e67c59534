import ShellFrontend.Token.Kind

/-! # Grammar rules

Which kinds of token start a statement or an operand of their own, and which stand
between two operands and how strongly they bind. The tables are data, so that a grammar
can be extended and its rules replaced one by one.
-/

set_option autoImplicit false

namespace ShellFrontend

/-- How strongly an operator binds, weakest first. -/
inductive Power where
  | lowest
  | equality
  | relational
  | additive
  | multiplicative
  | unary
  deriving DecidableEq, Repr

def Power.rank : Power → Nat
  | lowest => 0
  | equality => 1
  | relational => 2
  | additive => 3
  | multiplicative => 4
  | unary => 5

theorem Power.rank_injective {a b : Power} (h : a.rank = b.rank) : a = b := by
  cases a <;> cases b <;> simp_all [rank]

inductive StatementRule where
  | binding
  | result
  | block
  deriving DecidableEq, Repr

inductive OperandRule where
  | literal
  | identifier
  | unary
  | grouping
  | conditional
  | function
  deriving DecidableEq, Repr

structure Rules where
  statement : Kind → Option StatementRule
  operand : Kind → Option OperandRule
  operator : Kind → Option Power

namespace Rules

def empty : Rules :=
  ⟨fun _ => none, fun _ => none, fun _ => none⟩

def standard : Rules where
  statement
    | .letWord => some .binding
    | .returnWord => some .result
    | .openBrace => some .block
    | _ => none
  operand
    | .number | .string | .command | .trueWord | .falseWord => some .literal
    | .identifier => some .identifier
    | .bang | .minus => some .unary
    | .openParen => some .grouping
    | .ifWord => some .conditional
    | .fnWord => some .function
    | _ => none
  operator
    | .equal | .notEqual => some .equality
    | .less | .lessEqual | .greater | .greaterEqual => some .relational
    | .plus | .minus => some .additive
    | .star | .slash | .percent => some .multiplicative
    | _ => none

/-- Every rule of the first set, and those of the second for all other kinds. -/
def override (first second : Rules) : Rules where
  statement kind := first.statement kind <|> second.statement kind
  operand kind := first.operand kind <|> second.operand kind
  operator kind := first.operator kind <|> second.operator kind

def setStatement (rules : Rules) (kind : Kind) (rule : StatementRule) : Rules :=
  { rules with statement := fun k => if k = kind then some rule else rules.statement k }

def setOperand (rules : Rules) (kind : Kind) (rule : OperandRule) : Rules :=
  { rules with operand := fun k => if k = kind then some rule else rules.operand k }

def setOperator (rules : Rules) (kind : Kind) (power : Power) : Rules :=
  { rules with operator := fun k => if k = kind then some power else rules.operator k }

theorem override_empty (rules : Rules) : rules.override empty = rules := by
  obtain ⟨statement, operand, operator⟩ := rules
  simp [override, empty]

end Rules

end ShellFrontend
