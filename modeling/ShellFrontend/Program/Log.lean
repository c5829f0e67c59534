import ShellFrontend.Program.Parse
import ShellFrontend.Token.Tokenize

/-! # The log of a run

What a run reports while it goes on: the tokens it was given, each statement it starts
on, also inside blocks, and each statement it gives up.
-/

set_option autoImplicit false

namespace ShellFrontend

inductive LogEvent where
  | tokenized (file : String) (count : Nat)
  | parsing (count : Nat) (file : String)
  | starting (kind : Kind)
  | givingUp (index : Nat) (cause : Cause)
  deriving DecidableEq, Repr

def LogEvent.line : LogEvent → String
  | tokenized file count =>
    "TRACE tokenized " ++ file ++ " into " ++ toString count ++ " tokens"
  | parsing count file => "DEBUG parsing " ++ toString count ++ " tokens from " ++ file
  | starting kind => "TRACE parsing statement starting with " ++ kind.label
  | givingUp index cause =>
    "DEBUG statement at token " ++ toString index ++ " failed (" ++ cause.message ++
      "), skipping to the next statement"

/-- The events of a piece, of `total` tokens. -/
def Piece.events (total : Nat) (piece : Piece) : List LogEvent :=
  match piece.outcome with
  | .blank => []
  | .parsed _ started => started.map .starting
  | .failed error started =>
    started.map .starting ++ [.givingUp (total - piece.start.length) error.cause]

def parseEvents (tokens : List Token) (file : String) : List LogEvent :=
  .parsing tokens.length file ::
    (parse tokens file).pieces.flatMap (Piece.events tokens.length)

def runEvents (source file parserFile : String) : List LogEvent :=
  let tokens := tokenize source file
  .tokenized file tokens.length :: parseEvents tokens parserFile

end ShellFrontend
