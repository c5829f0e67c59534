import ShellFrontend.Grammar.Recovery
import ShellFrontend.Grammar.Statement
import ShellFrontend.Program.Parse

/-! # Parsing step by step

A session is a list of tokens with a cursor that moves along it, rules that may be
extended at any time, and a count of open nesting levels. Its steps are those of the
grammar; a step that fails leaves the cursor where the error was found.
-/

set_option autoImplicit false

namespace ShellFrontend

structure Session where
  tokens : List Token
  file : String
  /-- The index of the current token; it may be set past the end. -/
  cursor : Nat
  rules : Rules
  depth : Nat

namespace Session

variable {α : Type}

def start (tokens : List Token) (file : String) : Session :=
  ⟨tokens, file, 0, .empty, 0⟩

def final (session : Session) : Position :=
  endPosition session.tokens session.file

def remaining (session : Session) : List Token :=
  session.tokens.drop session.cursor

def token (session : Session) : Token :=
  frontToken session.final session.remaining

def next (session : Session) : Token :=
  frontToken session.final session.remaining.tail

def kind (session : Session) : Kind :=
  session.token.kind

def position (session : Session) : Position :=
  session.token.span.start

def hasTokens (session : Session) : Bool :=
  session.kind ≠ .endOfInput

def error (session : Session) (cause : Cause) : SyntaxError :=
  ⟨cause, session.position⟩

/-- Moves past the current token, if there is one. -/
def advance (session : Session) : Session :=
  if session.cursor < session.tokens.length then
    { session with cursor := session.cursor + 1 }
  else session

/-- The current token, if it is of the expected kind. With a message of its own the error
says only that. -/
def expect (session : Session) (kind : Kind) (message? : Option String) :
    Except SyntaxError Token × Session :=
  let token := session.token
  if token.kind = kind then (.ok token, session.advance)
  else
    let cause := match message? with
      | some message => .misplaced token.text message
      | none => Advancing.notExpected kind token
    (.error (session.error cause), session)

/-- Runs a parser at the cursor and moves the cursor by what it takes. -/
def run (session : Session) (parser : Parser α) : Except SyntaxError α × Session :=
  let remaining := session.remaining
  let reply := parser.run session.final remaining
  (reply.result,
    { session with cursor := session.cursor + (remaining.length - reply.rest.length) })

def layer (session : Session) : Layer :=
  .ofLevels session.rules (nestingLimit - session.depth)

def endStatement (session : Session) : Except SyntaxError Unit × Session :=
  session.run Statement.ending

def parseStatement (session : Session) : Except SyntaxError Stmt × Session :=
  session.run (statement session.rules session.layer).toParser

def parseStatementBy (session : Session) (rule : StatementRule) :
    Except SyntaxError Stmt × Session :=
  session.run (rule.parser session.layer).toParser

def parseOperandBy (session : Session) (rule : OperandRule) : Except SyntaxError Expr × Session :=
  session.run (rule.parser session.layer).toParser

def parseBlock (session : Session) : Except SyntaxError (List Stmt) × Session :=
  session.run session.layer.block.toParser

def parseExpression (session : Session) (floor : Power) : Except SyntaxError Expr × Session :=
  session.run (session.layer.expr floor).toParser

def parseOperation (session : Session) (left : Expr) (power : Power) :
    Except SyntaxError Expr × Session :=
  session.run ((Expression.operation session.layer power).map (Expression.combine left)).toParser

/-- Moves the cursor to just past the statement that starts at a token. -/
def skipStatementAt (session : Session) (start : Nat) : Session :=
  let remaining := session.tokens.drop start
  { session with
    cursor := start + (remaining.length - (skipStatement 0 0 remaining).length) }

/-- Works one nesting level deeper, if there is a level left. -/
def nested (session : Session) (work : Session → Except SyntaxError α × Session) :
    Except SyntaxError α × Session :=
  if session.depth < nestingLimit then
    let (result, after) := work { session with depth := session.depth + 1 }
    (result, { after with depth := session.depth })
  else (.error (session.error (.tooDeep nestingLimit)), session)

/-- Adds the rules of the language; they replace others for the same kinds. -/
def addStandardRules (session : Session) : Session :=
  { session with rules := Rules.standard.override session.rules }

end Session

end ShellFrontend
