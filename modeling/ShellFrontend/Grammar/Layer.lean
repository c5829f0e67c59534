import ShellFrontend.Grammar.Rules
import ShellFrontend.Parser.Many
import ShellFrontend.Tree.Basic

/-! # Layers of the grammar

Expressions and blocks contain expressions and blocks, each one nesting level deeper.
A layer holds the parsers for what is nested; every parser of a level is built from the
layer below it.
-/

set_option autoImplicit false

namespace ShellFrontend

/-- The parsers for nested expressions, whose operators bind above a power, and blocks. -/
structure Layer where
  expr : Power → Advancing Expr
  block : Advancing (List Stmt)

/-- How many expressions and blocks may be open at once. -/
def nestingLimit : Nat := 128

/-- The layer in which nothing may be opened. -/
def Layer.closed : Layer where
  expr _ := .fail fun _ => .tooDeep nestingLimit
  block := .fail fun _ => .tooDeep nestingLimit

end ShellFrontend
