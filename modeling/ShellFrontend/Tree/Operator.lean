import ShellFrontend.Token.Kind

/-! # Operators

The operators of the language, the token kind that writes each of them, and its symbol.
-/

set_option autoImplicit false

namespace ShellFrontend

inductive UnaryOperator where
  | not
  | negate
  deriving DecidableEq, Repr

inductive BinaryOperator where
  | plus
  | minus
  | multiply
  | divide
  | modulo
  | equals
  | notEquals
  | less
  | lessEquals
  | greater
  | greaterEquals
  deriving DecidableEq, Repr

namespace UnaryOperator

def kind : UnaryOperator → Kind
  | not => .bang
  | negate => .minus

def ofKind? : Kind → Option UnaryOperator
  | .bang => some not
  | .minus => some negate
  | _ => none

theorem ofKind?_eq_some_iff {kind : Kind} {op : UnaryOperator} :
    ofKind? kind = some op ↔ op.kind = kind := by
  cases kind <;> cases op <;> decide

def symbol : UnaryOperator → Char
  | not => '!'
  | negate => '-'

end UnaryOperator

namespace BinaryOperator

def kind : BinaryOperator → Kind
  | plus => .plus
  | minus => .minus
  | multiply => .star
  | divide => .slash
  | modulo => .percent
  | equals => .equal
  | notEquals => .notEqual
  | less => .less
  | lessEquals => .lessEqual
  | greater => .greater
  | greaterEquals => .greaterEqual

def ofKind? : Kind → Option BinaryOperator
  | .plus => some plus
  | .minus => some minus
  | .star => some multiply
  | .slash => some divide
  | .percent => some modulo
  | .equal => some equals
  | .notEqual => some notEquals
  | .less => some less
  | .lessEqual => some lessEquals
  | .greater => some greater
  | .greaterEqual => some greaterEquals
  | _ => none

theorem ofKind?_eq_some_iff {kind : Kind} {op : BinaryOperator} :
    ofKind? kind = some op ↔ op.kind = kind := by
  cases kind <;> cases op <;> decide

def symbol : BinaryOperator → List Char
  | plus => ['+']
  | minus => ['-']
  | multiply => ['*']
  | divide => ['/']
  | modulo => ['%']
  | equals => ['=', '=']
  | notEquals => ['!', '=']
  | less => ['<']
  | lessEquals => ['<', '=']
  | greater => ['>']
  | greaterEquals => ['>', '=']

end BinaryOperator

end ShellFrontend
