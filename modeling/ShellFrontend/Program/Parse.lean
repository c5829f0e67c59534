import ShellFrontend.Grammar.Recovery
import ShellFrontend.Grammar.Statement

/-! # Parsing a program

The tokens up to the first end marker are cut into pieces: skipped terminators, parsed
statements, and failed statements with what recovery skipped. The program holds the
parsed statements, and the errors of the others are kept beside it.
-/

set_option autoImplicit false

namespace ShellFrontend

/-- What came of a piece; `started` lists the first tokens of the statements tried in it. -/
inductive PieceOutcome where
  | blank
  | parsed (stmt : Stmt) (started : List Kind)
  | failed (error : SyntaxError) (started : List Kind)

/-- A stretch of tokens, given by what is left before it and after it. -/
structure Piece where
  start : List Token
  rest : List Token
  outcome : PieceOutcome

namespace Piece

def tokens (piece : Piece) : List Token :=
  piece.start.take (piece.start.length - piece.rest.length)

def stmt? (piece : Piece) : Option Stmt :=
  match piece.outcome with
  | .parsed stmt _ => some stmt
  | _ => none

def error? (piece : Piece) : Option SyntaxError :=
  match piece.outcome with
  | .failed error _ => some error
  | _ => none

end Piece

/-- The pieces of a list of tokens that `stmt` reads. -/
def pieces (stmt : Advancing Stmt) (final : Position) : List Token → List Piece
  | [] => []
  | token :: rest =>
    if token.kind = .endOfInput then []
    else if token.kind = .terminator then
      ⟨token :: rest, rest, .blank⟩ :: pieces stmt final rest
    else
      match _h : stmt.run final (token :: rest) with
      | .ok value left started =>
        ⟨token :: rest, left, .parsed value started⟩ :: pieces stmt final left
      | .fail error _ started =>
        let left := skipStatement 0 0 (token :: rest)
        ⟨token :: rest, left, .failed error started⟩ :: pieces stmt final left
termination_by tokens => tokens.length
decreasing_by
  · exact Nat.lt_succ_self _
  · exact stmt.rest_length_lt _h
  · exact Nat.lt_succ_of_le (skipStatement_cons_suffix 0 0 ‹_›).length_le

def endPosition (tokens : List Token) (file : String) : Position :=
  match tokens.getLast? with
  | some token => ⟨token.span.stop.offset, file⟩
  | none => ⟨0, file⟩

/-- A program, and the errors of the statements that are not part of it. -/
structure Parsed where
  pieces : List Piece

namespace Parsed

def program (parsed : Parsed) : Program :=
  ⟨parsed.pieces.filterMap Piece.stmt?⟩

def errors (parsed : Parsed) : List SyntaxError :=
  parsed.pieces.filterMap Piece.error?

end Parsed

/-- Parses the tokens of a file by the rules of the language. -/
def parse (tokens : List Token) (file : String) : Parsed :=
  ⟨pieces (statement .standard (.ofLevels .standard nestingLimit)) (endPosition tokens file) tokens⟩

end ShellFrontend
