/-! # Kinds of token

The closed list of token kinds, in the order in which tables list them, and the
label under which diagnostics name each of them.
-/

set_option autoImplicit false

namespace ShellFrontend

inductive Kind where
  | illegal
  | endOfInput
  | number
  | string
  | command
  | identifier
  | openBrace
  | closeBrace
  | openParen
  | closeParen
  | assign
  | equal
  | bang
  | notEqual
  | less
  | lessEqual
  | greater
  | greaterEqual
  | dot
  /-- A written semicolon or a line break. -/
  | terminator
  | comma
  | plus
  | minus
  | slash
  | star
  | percent
  | letWord
  | fnWord
  | ifWord
  | elseWord
  | forWord
  | inWord
  | returnWord
  | trueWord
  | falseWord
  deriving DecidableEq, Repr

namespace Kind

def all : List Kind :=
  [illegal, endOfInput, number, string, command, identifier, openBrace, closeBrace, openParen,
    closeParen, assign, equal, bang, notEqual, less, lessEqual, greater, greaterEqual, dot,
    terminator, comma, plus, minus, slash, star, percent, letWord, fnWord, ifWord, elseWord,
    forWord, inWord, returnWord, trueWord, falseWord]

theorem mem_all (kind : Kind) : kind ∈ all := by
  cases kind <;> decide

theorem nodup_all : all.Nodup := by decide

def label : Kind → String
  | illegal => "ILLEGAL"
  | endOfInput => "EOF"
  | number => "NUMBER"
  | string => "STRING"
  | command => "COMMAND"
  | identifier => "IDENTIFIER"
  | openBrace => "LBRACE"
  | closeBrace => "RBRACE"
  | openParen => "LPAREN"
  | closeParen => "RPAREN"
  | assign => "ASSIGN"
  | equal => "EQUAL"
  | bang => "NOT"
  | notEqual => "NOT_EQUAL"
  | less => "LESS"
  | lessEqual => "LESS_EQUAL"
  | greater => "GREATER"
  | greaterEqual => "GREATER_EQUAL"
  | dot => "DOT"
  | terminator => "LINEEND"
  | comma => "COMMA"
  | plus => "PLUS"
  | minus => "MINUS"
  | slash => "SLASH"
  | star => "ASTERISK"
  | percent => "PERCENT"
  | letWord => "LET"
  | fnWord => "FUNCTION"
  | ifWord => "IF"
  | elseWord => "ELSE"
  | forWord => "FOR"
  | inWord => "IN"
  | returnWord => "RETURN"
  | trueWord => "TRUE"
  | falseWord => "FALSE"

end Kind

end ShellFrontend
