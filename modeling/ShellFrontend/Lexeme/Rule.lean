import ShellFrontend.Lexeme.Basic
import ShellFrontend.Text.Digits
import ShellFrontend.Text.Literal
import ShellFrontend.Token.Keyword

/-! # Lexical rules

A rule pairs a pattern, tried at the start of the text that is left, with what the
matched characters mean. The rules are an ordered table; an earlier rule wins.
-/

set_option autoImplicit false

namespace ShellFrontend.Lexeme

/-- A character and the longest run of others after it, or a fixed text. -/
inductive Pattern where
  | run (first others : Char → Bool)
  | exactly (first : Char) (others : List Char)

inductive Meaning where
  | skip
  | fixed (kind : Kind)
  | word
  | numeral
  /-- The match is the opening delimiter. -/
  | literal (kind : Kind) (quoting : Text.Quoting)

structure Rule where
  pattern : Pattern
  meaning : Meaning

/-- What a pattern takes of the text after its first character. -/
def Pattern.others? (pattern : Pattern) (c : Char) (rest : List Char) : Option (List Char) :=
  match pattern with
  | .run first others => if first c then some (rest.takeWhile others) else none
  | .exactly first others => if c = first && others.isPrefixOf rest then some others else none

def isGap (c : Char) : Bool :=
  c = ' ' || c = '\t' || c = '\r'

def isLetter (c : Char) : Bool :=
  ('a' ≤ c && c ≤ 'z') || ('A' ≤ c && c ≤ 'Z') || c = '_'

def isDigitOrPoint (c : Char) : Bool :=
  Text.isDigit c || c = '.'

/-- At most one point, and none at the end. -/
def isNumeral (run : List Char) : Bool :=
  run.count '.' ≤ 1 && run.getLast? != some '.'

/-- A literal whose opening delimiter has been found. Without a closing delimiter
everything to the end of the source is one illegal token. -/
def ofLiteral (kind : Kind) (quoting : Text.Quoting) (opening : Char) (rest : List Char) :
    Lexeme :=
  match quoting.body? rest with
  | some body =>
    ⟨opening :: (body ++ [quoting.delimiter]),
      some (kind, String.ofList (quoting.unescape body))⟩
  | none => verbatim .illegal (opening :: rest)

/-- The lexeme that starts with `c`, of whose following text a pattern took `others`. -/
def Meaning.lexeme (meaning : Meaning) (c : Char) (others rest : List Char) : Lexeme :=
  match meaning with
  | .skip => skipped (c :: others)
  | .fixed kind => verbatim kind (c :: others)
  | .word => verbatim (Keyword.kindOf (String.ofList (c :: others))) (c :: others)
  | .numeral => verbatim (if isNumeral (c :: others) then .number else .illegal) (c :: others)
  | .literal kind quoting => ofLiteral kind quoting c rest

def Rule.lexeme? (rule : Rule) (c : Char) (rest : List Char) : Option Lexeme :=
  (rule.pattern.others? c rest).map fun others => rule.meaning.lexeme c others rest

/-- The table of rules; a longer operator stands before the operator that it begins with. -/
def rules : List Rule :=
  [⟨.run isGap isGap, .skip⟩,
    ⟨.exactly '\n' [], .fixed .terminator⟩,
    ⟨.run (· = '#') (· ≠ '\n'), .skip⟩,
    ⟨.run isLetter isLetter, .word⟩,
    ⟨.run Text.isDigit isDigitOrPoint, .numeral⟩,
    ⟨.exactly '"' [], .literal .string .string⟩,
    ⟨.exactly '\x60' [], .literal .command .command⟩,
    ⟨.exactly '=' ['='], .fixed .equal⟩,
    ⟨.exactly '!' ['='], .fixed .notEqual⟩,
    ⟨.exactly '<' ['='], .fixed .lessEqual⟩,
    ⟨.exactly '>' ['='], .fixed .greaterEqual⟩,
    ⟨.exactly '=' [], .fixed .assign⟩,
    ⟨.exactly '!' [], .fixed .bang⟩,
    ⟨.exactly '<' [], .fixed .less⟩,
    ⟨.exactly '>' [], .fixed .greater⟩,
    ⟨.exactly '+' [], .fixed .plus⟩,
    ⟨.exactly '-' [], .fixed .minus⟩,
    ⟨.exactly '*' [], .fixed .star⟩,
    ⟨.exactly '/' [], .fixed .slash⟩,
    ⟨.exactly '%' [], .fixed .percent⟩,
    ⟨.exactly '(' [], .fixed .openParen⟩,
    ⟨.exactly ')' [], .fixed .closeParen⟩,
    ⟨.exactly '\x7b' [], .fixed .openBrace⟩,
    ⟨.exactly '\x7d' [], .fixed .closeBrace⟩,
    ⟨.exactly ',' [], .fixed .comma⟩,
    ⟨.exactly '.' [], .fixed .dot⟩,
    ⟨.exactly ';' [], .fixed .terminator⟩]

end ShellFrontend.Lexeme
