import ShellFrontend.Number.Binary64
import ShellFrontend.Tree.Operator

/-! # Programs as trees

Expressions and statements refer to each other: a conditional and a function hold
blocks, and a block is a list of statements.
-/

set_option autoImplicit false

namespace ShellFrontend

mutual

inductive Expr where
  | identifier (name : String)
  | number (value : Binary64)
  | boolean (value : Bool)
  | string (text : String)
  /-- Text that is handed to the shell as it is. -/
  | command (text : String)
  | unary (op : UnaryOperator) (right : Expr)
  | binary (left : Expr) (op : BinaryOperator) (right : Expr)
  | conditional (condition : Expr) (consequence : List Stmt) (alternative : Option (List Stmt))
  | function (parameters : List String) (body : List Stmt)
  /-- Only a name can be called. -/
  | call (callee : String) (arguments : List Expr)

inductive Stmt where
  | binding (name : String) (value : Expr)
  | result (value : Expr)
  | expression (value : Expr)
  | block (body : List Stmt)

end

structure Program where
  statements : List Stmt

/-- The rendering of a unary or binary expression has parentheses of its own. -/
def Expr.isParenthesized : Expr → Bool
  | unary .. => true
  | binary .. => true
  | _ => false

def Program.isEmpty (program : Program) : Bool :=
  program.statements.isEmpty

end ShellFrontend
