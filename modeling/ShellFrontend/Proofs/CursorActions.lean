import ShellFrontend.Proofs.OpenLevels

/-! # Reading by moving the cursor

The grammar once more, as work on a session: every rule looks at the current token and moves the
cursor or fails, asks for what is nested by the session's tables, and opens a level around an
expression or a block that it closes again behind it. Nothing here bounds how deep the calls nest or
how often a loop turns, so a number of calls is given, and work that needs more of them does not end.
-/

set_option autoImplicit false

namespace ShellFrontend

namespace Session

/-- Work on a session. If it ends, it gives a result and the session as it leaves it. -/
structure Action (α : Type) where
  run : Session → Option (Except SyntaxError α × Session)

namespace Action

variable {α β ρ : Type}

section steps

instance : Monad Action where
  pure value := ⟨fun session => some (.ok value, session)⟩
  bind action next := ⟨fun session =>
    match action.run session with
    | some (.ok value, after) => (next value).run after
    | some (.error error, after) => some (.error error, after)
    | none => none⟩

/-- Work that does not end. -/
def endless : Action α where
  run _ := none

def look (view : Session → α) : Action α where
  run session := some (.ok (view session), session)

/-- What a table of the session says of the current token. -/
def rule? (table : Rules → Kind → Option ρ) : Action (Option ρ) :=
  look fun session => table session.rules session.kind

def advance : Action Unit where
  run session := some (.ok (), session.advance)

def expect (kind : Kind) (message? : Option String) : Action Token where
  run session := some (session.expect kind message?)

/-- Fails at the current token. -/
def fail (cause : Token → Cause) : Action α where
  run session := some (.error (session.error (cause session.token)), session)

/-- Takes the current token if it means something. -/
def accept (meaning : Token → Option α) (cause : Token → Cause) : Action α := do
  match meaning (← look Session.token) with
  | some value => do
    advance
    pure value
  | none => fail cause

/-- Works one level deeper, and comes back from there with an error as well. -/
def nested (action : Action α) : Action α where
  run session :=
    if session.depth < nestingLimit then
      (action.run { session with depth := session.depth + 1 }).map fun (result, after) =>
        (result, { after with depth := after.depth - 1 })
    else
      (fail fun _ => .tooDeep nestingLimit).run session

/-- Turns until one brings the value. -/
def loop (turn : β → Action (β ⊕ α)) : Nat → β → Action α
  | 0, _ => endless
  | turns + 1, state => do
    match ← turn state with
    | .inl next => loop turn turns next
    | .inr value => pure value

end steps

section rules

variable (calls : Nat) (call : {α : Type} → Target α → Action α)

def commaTurn (what : String) (item : Action α) (items : List α) : Action (List α ⊕ List α) := do
  let value ← item
  match ← look kind with
  | .comma => do
    advance
    match ← look kind with
    | .closeParen => fail fun token => .misplaced token.text ("trailing comma in " ++ what)
    | _ => pure (.inl (items ++ [value]))
  | _ => do
    let _ ← expect .closeParen none
    pure (.inr (items ++ [value]))

def commaList (what : String) (item : Action α) : Action (List α) := do
  let _ ← expect .openParen none
  match ← look kind with
  | .closeParen => do
    advance
    pure []
  | _ => loop (commaTurn what item) calls []

/-- Moves to an `else` on the next line. -/
def skipLineBreak : Action Unit := do
  match ← look fun session => session.token.isLineBreak && session.next.kind = .elseWord with
  | true => advance
  | false => pure ()

def alternative : Action (Option (List Stmt)) := do
  skipLineBreak
  match ← look kind with
  | .elseWord => do
    advance
    let body ← call .block
    pure (some body)
  | _ => pure none

def operandBy : OperandRule → Action Expr
  | .literal => accept Operand.literal? Operand.notLiteral
  | .identifier => do
    let name ← expect .identifier none
    match ← look kind with
    | .openParen => do
      let arguments ← commaList calls "argument list" (call (.expression .lowest))
      pure (.call name.text arguments)
    | _ => pure (.identifier name.text)
  | .unary => do
    let op ← accept (fun token => UnaryOperator.ofKind? token.kind) fun token => .noOperand token.kind
    let right ← call (.expression .unary)
    pure (.unary op right)
  | .grouping => do
    let _ ← expect .openParen none
    let inner ← call (.expression .lowest)
    let _ ← expect .closeParen none
    pure inner
  | .conditional => do
    let _ ← expect .ifWord none
    let _ ← expect .openParen (some "expected \x60(\x60 after \x60if\x60")
    let condition ← call (.expression .lowest)
    let _ ← expect .closeParen none
    let consequence ← call .block
    let other ← alternative call
    pure (.conditional condition consequence other)
  | .function => do
    let _ ← expect .fnWord none
    let parameters ← commaList calls "parameter list" (expect .identifier none)
    let body ← call .block
    pure (.function (parameters.map (·.text)) body)

def operation (left : Expr) (power : Power) : Action Expr := do
  let op ← accept (fun token => BinaryOperator.ofKind? token.kind)
    fun token => .misplaced token.text "expected an infix operator"
  let right ← call (.expression power)
  pure (.binary left op right)

def operatorTurn (floor : Power) (left : Expr) : Action (Expr ⊕ Expr) := do
  match ← rule? Rules.operator with
  | some power =>
    if floor.rank < power.rank then do
      let next ← call (.operation left power)
      pure (.inl next)
    else pure (.inr left)
  | none => pure (.inr left)

def operand : Action Expr := do
  match ← rule? Rules.operand with
  | some rule => call (.operandBy rule)
  | none => fail Operand.notOperand

def expression (floor : Power) : Action Expr := do
  let first ← operand call
  loop (operatorTurn call floor) calls first

def ending : Action Unit := do
  match ← look kind with
  | .terminator => advance
  | .closeBrace | .endOfInput => pure ()
  | .illegal => fail fun token => .illegal token.text
  | _ => fail fun token =>
    .misplaced token.text "expected \x60;\x60 or a newline to end the statement"

def statementBy : StatementRule → Action Stmt
  | .binding => do
    let _ ← expect .letWord none
    let name ← expect .identifier none
    let _ ← expect .assign none
    let value ← call (.expression .lowest)
    ending
    pure (.binding name.text value)
  | .result => do
    let _ ← expect .returnWord none
    let value ← call (.expression .lowest)
    ending
    pure (.result value)
  | .block => do
    let body ← call .block
    pure (.block body)

def statement : Action Stmt := do
  match ← rule? Rules.statement with
  | some rule => call (.statementBy rule)
  | none => do
    let value ← call (.expression .lowest)
    ending
    pure (.expression value)

def blockTurn (body : List Stmt) : Action (List Stmt ⊕ List Stmt) := do
  match ← look kind with
  | .closeBrace => do
    advance
    pure (.inr body)
  | .endOfInput => fail fun _ => .unclosedBlock
  | .terminator => do
    advance
    pure (.inl body)
  | _ => do
    let stmt ← call .statement
    pure (.inl (body ++ [stmt]))

def block : Action (List Stmt) := do
  let _ ← expect .openBrace none
  loop (blockTurn call) calls []

end rules

end Action

/-- What a session is asked to read, with so many calls inside one another. -/
def perform : Nat → {α : Type} → Target α → Action α
  | 0, _, _ => .endless
  | calls + 1, _, .statement => Action.statement (perform calls)
  | calls + 1, _, .statementBy rule => Action.statementBy (perform calls) rule
  | calls + 1, _, .block => Action.nested (Action.block calls (perform calls))
  | calls + 1, _, .expression floor => Action.nested (Action.expression calls (perform calls) floor)
  | calls + 1, _, .operandBy rule => Action.operandBy calls (perform calls) rule
  | calls + 1, _, .operation left power => Action.operation (perform calls) left power

end Session

end ShellFrontend
