import ShellFrontend.Tree.Basic

/-! # Sameness of trees

Two trees are the same when their nodes agree throughout, numbers as numbers: a tree
that holds a NaN is not the same as itself, and the two zeros are not told apart.
-/

set_option autoImplicit false

namespace ShellFrontend

mutual

def Expr.same : Expr → Expr → Bool
  | .identifier a, .identifier b => a = b
  | .number a, .number b => a.same b
  | .boolean a, .boolean b => a = b
  | .string a, .string b => a = b
  | .command a, .command b => a = b
  | .unary op a, .unary op' b => op = op' && a.same b
  | .binary a op b, .binary a' op' b' => a.same a' && op = op' && b.same b'
  | .conditional a b c, .conditional a' b' c' => a.same a' && sameBlock b b' && sameAlternative c c'
  | .function parameters a, .function parameters' b => parameters = parameters' && sameBlock a b
  | .call callee a, .call callee' b => callee = callee' && sameArguments a b
  | _, _ => false
termination_by structural a => a

def Stmt.same : Stmt → Stmt → Bool
  | .binding name a, .binding name' b => name = name' && a.same b
  | .result a, .result b => a.same b
  | .expression a, .expression b => a.same b
  | .block a, .block b => sameBlock a b
  | _, _ => false
termination_by structural a => a

def sameBlock : List Stmt → List Stmt → Bool
  | [], [] => true
  | a :: as, b :: bs => a.same b && sameBlock as bs
  | _, _ => false
termination_by structural a => a

def sameAlternative : Option (List Stmt) → Option (List Stmt) → Bool
  | none, none => true
  | some a, some b => sameBlock a b
  | _, _ => false
termination_by structural a => a

def sameArguments : List Expr → List Expr → Bool
  | [], [] => true
  | a :: as, b :: bs => a.same b && sameArguments as bs
  | _, _ => false
termination_by structural a => a

end

def Program.same (p q : Program) : Bool :=
  sameBlock p.statements q.statements

end ShellFrontend
