import ShellFrontend.Number.Numeral
import ShellFrontend.Text.Literal
import ShellFrontend.Tree.Basic

/-! # Rendering

The canonical text of a tree: operators carry parentheses, blocks stand on one line,
and a program has one statement a line. Each function writes in front of the text that
follows, so a tree is rendered in one pass.
-/

set_option autoImplicit false

namespace ShellFrontend

def writeNames : List String → List Char → List Char
  | [], rest => rest
  | [name], rest => name.toList ++ rest
  | name :: names, rest => name.toList ++ ',' :: ' ' :: writeNames names rest

mutual

def Expr.write : Expr → List Char → List Char
  | .identifier name, rest => name.toList ++ rest
  | .number value, rest => value.text ++ rest
  | .boolean value, rest => (if value then "true" else "false").toList ++ rest
  | .string text, rest => Text.Quoting.string.write text.toList ++ rest
  | .command text, rest => Text.Quoting.command.write text.toList ++ rest
  | .unary op right, rest => '(' :: op.symbol :: right.write (')' :: rest)
  | .binary left op right, rest =>
    '(' :: left.write (' ' :: (op.symbol ++ ' ' :: right.write (')' :: rest)))
  | .conditional condition consequence alternative, rest =>
    let blocks := writeBlock consequence (writeAlternative alternative rest)
    'i' :: 'f' :: ' ' ::
      if condition.isParenthesized then condition.write (' ' :: blocks)
      else '(' :: condition.write (')' :: ' ' :: blocks)
  | .function parameters body, rest =>
    'f' :: 'n' :: '(' :: writeNames parameters (')' :: ' ' :: writeBlock body rest)
  | .call callee arguments, rest =>
    callee.toList ++ '(' :: writeArguments arguments (')' :: rest)

def Stmt.write : Stmt → List Char → List Char
  | .binding name value, rest =>
    "let ".toList ++ name.toList ++ ' ' :: '=' :: ' ' :: value.write rest
  | .result value, rest => "return ".toList ++ value.write rest
  | .expression value, rest => value.write rest
  | .block body, rest => writeBlock body rest

/-- A block on one line. -/
def writeBlock : List Stmt → List Char → List Char
  | [], rest => '\x7b' :: ' ' :: '\x7d' :: rest
  | stmt :: stmts, rest => '\x7b' :: ' ' :: stmt.write (writeFurther stmts (' ' :: '\x7d' :: rest))

/-- The statements of a block after its first. -/
def writeFurther : List Stmt → List Char → List Char
  | [], rest => rest
  | stmt :: stmts, rest => ';' :: ' ' :: stmt.write (writeFurther stmts rest)

def writeAlternative : Option (List Stmt) → List Char → List Char
  | none, rest => rest
  | some body, rest => " else ".toList ++ writeBlock body rest

def writeArguments : List Expr → List Char → List Char
  | [], rest => rest
  | argument :: arguments, rest => argument.write (writeFurtherArguments arguments rest)

def writeFurtherArguments : List Expr → List Char → List Char
  | [], rest => rest
  | argument :: arguments, rest =>
    ',' :: ' ' :: argument.write (writeFurtherArguments arguments rest)

end

def writeLines : List Stmt → List Char
  | [] => []
  | [stmt] => stmt.write []
  | stmt :: stmts => stmt.write ('\n' :: writeLines stmts)

def Expr.render (expr : Expr) : String := String.ofList (expr.write [])

def Stmt.render (stmt : Stmt) : String := String.ofList (stmt.write [])

def renderBlock (body : List Stmt) : String := String.ofList (writeBlock body [])

def Program.render (program : Program) : String := String.ofList (writeLines program.statements)

end ShellFrontend
