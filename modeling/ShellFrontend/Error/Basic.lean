import ShellFrontend.Token.Basic

/-! # Syntax errors

An error is a cause and the position of the token at which it was found. Each cause has
a title, a message and, but for one, a tip for the reader.
-/

set_option autoImplicit false

namespace ShellFrontend

inductive Cause where
  | unexpected (expected found : Kind) (text : String)
  /-- An unexpected token with a message of its own. -/
  | misplaced (text message : String)
  /-- No expression starts with this kind of token. -/
  | noOperand (kind : Kind)
  | illegal (text : String)
  | malformedNumber (text : String)
  | unclosedBlock
  | tooDeep (limit : Nat)
  deriving DecidableEq, Repr

structure SyntaxError where
  cause : Cause
  position : Position
  deriving DecidableEq, Repr

namespace Cause

def title : Cause → String
  | unexpected .. => "UnexpectedToken"
  | misplaced .. => "UnexpectedTokenDetailed"
  | noOperand .. => "NoPrefixRule"
  | illegal .. => "IllegalToken"
  | malformedNumber .. => "NumberParseError"
  | unclosedBlock => "UnterminatedBlock"
  | tooDeep .. => "NestingTooDeep"

def ticked (text : String) : String :=
  "\x60" ++ text ++ "\x60"

def message : Cause → String
  | unexpected expected found text =>
    "expected " ++ expected.label ++ ", found " ++ found.label ++ " " ++ ticked text
  | misplaced text message => "unexpected token (" ++ message ++ "): " ++ ticked text
  | noOperand kind => "no expression-parsing rule for token " ++ ticked kind.label
  | illegal text => "illegal token " ++ ticked text
  | malformedNumber text => "error parsing number: " ++ ticked text
  | unclosedBlock => "reached end of input before closing " ++ ticked "\x7d"
  | tooDeep limit =>
    "expressions and blocks nested deeper than " ++ toString limit ++ " levels"

/-- An illegal token that starts with a delimiter is a literal that was never closed. -/
def isOpenLiteral (text : String) : Bool :=
  match text.toList with
  | c :: _ => c = '"' || c = '\x60'
  | [] => false

def tip? : Cause → Option String
  | unexpected expected found text => some ((unexpected expected found text).message)
  | misplaced text message => some ("Unexpected token: " ++ ticked text ++ ", " ++ message)
  | noOperand kind => some (ticked kind.label ++ " cannot start an expression")
  | illegal text =>
    some (ticked text ++
      if isOpenLiteral text then " is never closed, did you miss a closing quote?"
      else " is not valid here")
  | malformedNumber text => some ("Invalid number: " ++ ticked text)
  | unclosedBlock => none
  | tooDeep _ => some ("Split the expression into smaller " ++ ticked "let" ++ " bindings")

end Cause

end ShellFrontend
