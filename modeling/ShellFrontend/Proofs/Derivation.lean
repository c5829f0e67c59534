import ShellFrontend.Grammar.Statement

/-! # Derivations

The grammar of the language as a relation between phrases of tokens and trees, which knows
nothing of parsers. A derivation counts how many levels are open at once in it, and looks at
most at the kind of the token behind its phrase.
-/

set_option autoImplicit false

namespace ShellFrontend

/-- Nonterminals. The tiers of binary operators are numbered from the weakest, `0`, to the
operators' operands, `4`. -/
inductive Symbol where
  | tier (index : Nat)
  | unary
  | operand
  | arguments
  | alternative
  | block
  | body
  | statement

def Symbol.Tree : Symbol → Type
  | tier _ | unary | operand => Expr
  | arguments => List Expr
  | alternative => Option (List Stmt)
  | block | body => List Stmt
  | statement => Stmt

def BinaryOperator.tier : BinaryOperator → Nat
  | equals | notEquals => 0
  | less | lessEquals | greater | greaterEquals => 1
  | plus | minus => 2
  | multiply | divide | modulo => 3

inductive Literal : Token → Expr → Prop
  | number {token : Token} {value : Binary64} (h : token.kind = .number)
      (hvalue : Binary64.ofText? token.text.toList = some value) (hfinite : value.isFinite) :
      Literal token (.number value)
  | string {token : Token} (h : token.kind = .string) : Literal token (.string token.text)
  | command {token : Token} (h : token.kind = .command) : Literal token (.command token.text)
  | yes {token : Token} (h : token.kind = .trueWord) : Literal token (.boolean true)
  | no {token : Token} (h : token.kind = .falseWord) : Literal token (.boolean false)

/-- Names with a comma between two. -/
inductive Names : List Token → List String → Prop
  | last {name : Token} (h : name.kind = .identifier) : Names [name] [name.text]
  | more {name comma : Token} {phrase : List Token} {names : List String}
      (h : name.kind = .identifier) (hcomma : comma.kind = .comma) (tail : Names phrase names) :
      Names (name :: comma :: phrase) (name.text :: names)

inductive Parameters : List Token → List String → Prop
  | none {opening closing : Token} (hopening : opening.kind = .openParen)
      (hclosing : closing.kind = .closeParen) : Parameters [opening, closing] []
  | some {opening closing : Token} {phrase : List Token} {names : List String}
      (hopening : opening.kind = .openParen) (h : Names phrase names)
      (hclosing : closing.kind = .closeParen) : Parameters (opening :: phrase ++ [closing]) names

/-- What ends a statement: a terminator, or what ends its block or the program. -/
inductive Ends (next : Kind) : List Token → Prop
  | terminator {stop : Token} (h : stop.kind = .terminator) : Ends next [stop]
  | outside (h : next = .closeBrace ∨ next = .endOfInput) : Ends next []

/-- The kind of the first of some tokens, or else of the one behind them. -/
def headKind (next : Kind) : List Token → Kind
  | [] => next
  | token :: _ => token.kind

/-- Derivations by the levels that are open at once, the phrase, the kind of the token behind it
and the tree. Each block opens a level, and each expression in a statement, in parentheses, as a
condition, as an argument, behind a prefix operator and behind a binary operator. -/
inductive Derives : (symbol : Symbol) → Nat → List Token → Kind → symbol.Tree → Prop
  | tighter {index levels : Nat} {phrase : List Token} {next : Kind} {expr : Expr}
      (hindex : index < 4) (h : Derives (.tier (index + 1)) levels phrase next expr) :
      Derives (.tier index) levels phrase next expr
  | binary {op : BinaryOperator} {token : Token} {levels levels' : Nat} {phrase phrase' : List Token}
      {next : Kind} {left right : Expr} (hleft : Derives (.tier op.tier) levels phrase token.kind left)
      (hop : op.kind = token.kind)
      (hright : Derives (.tier (op.tier + 1)) levels' phrase' next right) :
      Derives (.tier op.tier) (max levels (levels' + 1)) (phrase ++ token :: phrase') next
        (.binary left op right)
  | tightest {levels : Nat} {phrase : List Token} {next : Kind} {expr : Expr}
      (h : Derives .unary levels phrase next expr) : Derives (.tier 4) levels phrase next expr
  | unary {op : UnaryOperator} {token : Token} {levels : Nat} {phrase : List Token} {next : Kind}
      {right : Expr} (hop : op.kind = token.kind) (h : Derives .unary levels phrase next right) :
      Derives .unary (levels + 1) (token :: phrase) next (.unary op right)
  | operand {levels : Nat} {phrase : List Token} {next : Kind} {expr : Expr}
      (h : Derives .operand levels phrase next expr) : Derives .unary levels phrase next expr
  | literal {token : Token} {next : Kind} {expr : Expr} (h : Literal token expr) :
      Derives .operand 0 [token] next expr
  | identifier {name : Token} {next : Kind} (h : name.kind = .identifier)
      (hnext : next ≠ .openParen) : Derives .operand 0 [name] next (.identifier name.text)
  | call {name opening closing : Token} {next : Kind} (h : name.kind = .identifier)
      (hopening : opening.kind = .openParen) (hclosing : closing.kind = .closeParen) :
      Derives .operand 0 [name, opening, closing] next (.call name.text [])
  | callWith {name opening closing : Token} {levels : Nat} {phrase : List Token} {next : Kind}
      {arguments : List Expr} (h : name.kind = .identifier) (hopening : opening.kind = .openParen)
      (harguments : Derives .arguments levels phrase .closeParen arguments)
      (hclosing : closing.kind = .closeParen) :
      Derives .operand levels (name :: opening :: phrase ++ [closing]) next (.call name.text arguments)
  | grouping {opening closing : Token} {levels : Nat} {phrase : List Token} {next : Kind}
      {expr : Expr} (hopening : opening.kind = .openParen)
      (h : Derives (.tier 0) levels phrase .closeParen expr) (hclosing : closing.kind = .closeParen) :
      Derives .operand (levels + 1) (opening :: phrase ++ [closing]) next expr
  | conditional {word opening closing : Token} {levels levels' levels'' : Nat}
      {phrase phrase' phrase'' : List Token} {next : Kind} {condition : Expr}
      {consequence : List Stmt} {other : Option (List Stmt)} (hword : word.kind = .ifWord)
      (hopening : opening.kind = .openParen)
      (hcondition : Derives (.tier 0) levels phrase .closeParen condition)
      (hclosing : closing.kind = .closeParen)
      (hconsequence : Derives .block levels' phrase' (headKind next phrase'') consequence)
      (hother : Derives .alternative levels'' phrase'' next other) :
      Derives .operand (max (levels + 1) (max levels' levels''))
        (word :: opening :: phrase ++ closing :: phrase' ++ phrase'') next
        (.conditional condition consequence other)
  | function {word : Token} {levels : Nat} {phrase phrase' : List Token} {next : Kind}
      {parameters : List String} {body : List Stmt} (hword : word.kind = .fnWord)
      (hparameters : Parameters phrase parameters) (hbody : Derives .block levels phrase' next body) :
      Derives .operand levels (word :: phrase ++ phrase') next (.function parameters body)
  | lastArgument {levels : Nat} {phrase : List Token} {next : Kind} {argument : Expr}
      (h : Derives (.tier 0) levels phrase next argument) :
      Derives .arguments (levels + 1) phrase next [argument]
  | argument {comma : Token} {levels levels' : Nat} {phrase phrase' : List Token} {next : Kind}
      {argument : Expr} {arguments : List Expr} (h : Derives (.tier 0) levels phrase .comma argument)
      (hcomma : comma.kind = .comma) (tail : Derives .arguments levels' phrase' next arguments) :
      Derives .arguments (max (levels + 1) levels') (phrase ++ comma :: phrase') next
        (argument :: arguments)
  | noAlternative {next : Kind} : Derives .alternative 0 [] next none
  | alternative {word : Token} {levels : Nat} {phrase : List Token} {next : Kind} {body : List Stmt}
      (hword : word.kind = .elseWord) (h : Derives .block levels phrase next body) :
      Derives .alternative levels (word :: phrase) next (some body)
  | alternativeOnNextLine {lineBreak word : Token} {levels : Nat} {phrase : List Token} {next : Kind}
      {body : List Stmt} (hbreak : lineBreak.isLineBreak) (hword : word.kind = .elseWord)
      (h : Derives .block levels phrase next body) :
      Derives .alternative levels (lineBreak :: word :: phrase) next (some body)
  | block {opening closing : Token} {levels : Nat} {phrase : List Token} {next : Kind}
      {body : List Stmt} (hopening : opening.kind = .openBrace)
      (h : Derives .body levels phrase .closeBrace body) (hclosing : closing.kind = .closeBrace) :
      Derives .block (levels + 1) (opening :: phrase ++ [closing]) next body
  | emptyBody {next : Kind} : Derives .body 0 [] next []
  | emptyStatement {stop : Token} {levels : Nat} {phrase : List Token} {next : Kind}
      {body : List Stmt} (hstop : stop.kind = .terminator) (h : Derives .body levels phrase next body) :
      Derives .body levels (stop :: phrase) next body
  | statements {levels levels' : Nat} {phrase phrase' : List Token} {next : Kind} {stmt : Stmt}
      {body : List Stmt} (h : Derives .statement levels phrase (headKind next phrase') stmt)
      (tail : Derives .body levels' phrase' next body) :
      Derives .body (max levels levels') (phrase ++ phrase') next (stmt :: body)
  | binding {word name assign : Token} {levels : Nat} {phrase stop : List Token} {next : Kind}
      {value : Expr} (hword : word.kind = .letWord) (hname : name.kind = .identifier)
      (hassign : assign.kind = .assign)
      (h : Derives (.tier 0) levels phrase (headKind next stop) value) (hstop : Ends next stop) :
      Derives .statement (levels + 1) (word :: name :: assign :: phrase ++ stop) next
        (.binding name.text value)
  | result {word : Token} {levels : Nat} {phrase stop : List Token} {next : Kind} {value : Expr}
      (hword : word.kind = .returnWord)
      (h : Derives (.tier 0) levels phrase (headKind next stop) value) (hstop : Ends next stop) :
      Derives .statement (levels + 1) (word :: phrase ++ stop) next (.result value)
  | expression {levels : Nat} {phrase stop : List Token} {next : Kind} {value : Expr}
      (h : Derives (.tier 0) levels phrase (headKind next stop) value) (hstop : Ends next stop) :
      Derives .statement (levels + 1) (phrase ++ stop) next (.expression value)
  | blockStatement {levels : Nat} {phrase : List Token} {next : Kind} {body : List Stmt}
      (h : Derives .block levels phrase next body) :
      Derives .statement levels phrase next (.block body)

/-- Some derivation has at most a given number of levels open at once. -/
def DerivesWithin (symbol : Symbol) (limit : Nat) (phrase : List Token) (next : Kind)
    (tree : symbol.Tree) : Prop :=
  ∃ levels ≤ limit, Derives symbol levels phrase next tree

end ShellFrontend
