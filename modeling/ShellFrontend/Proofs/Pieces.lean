import ShellFrontend.Program.Parse
import ShellFrontend.Proofs.Phrases

/-! # The pieces of a program, one by one

Equations for the loop that cuts tokens into pieces, one for each way in which a piece may
begin.
-/

set_option autoImplicit false

namespace ShellFrontend

variable {stmt : Advancing Stmt} {final : Position} {token : Token} {rest left : List Token}

@[simp] theorem pieces_nil : pieces stmt final [] = [] := by
  rw [pieces]

theorem pieces_of_endOfInput (h : token.kind = .endOfInput) :
    pieces stmt final (token :: rest) = [] := by
  rw [pieces, if_pos h]

theorem pieces_of_terminator (h : token.kind = .terminator) :
    pieces stmt final (token :: rest) =
      ⟨token :: rest, rest, .blank⟩ :: pieces stmt final rest := by
  rw [pieces, if_neg (by simp [h]), if_pos h]

def Kind.startsPiece (kind : Kind) : Bool :=
  kind ≠ .endOfInput && kind ≠ .terminator

theorem Kind.startsPiece_of_ne {kind : Kind} (hend : kind ≠ .endOfInput)
    (hstop : kind ≠ .terminator) : kind.startsPiece := by
  simp [startsPiece, hend, hstop]

theorem Kind.startsPiece_of_startsStatement {kind : Kind} (h : kind.startsStatement) :
    kind.startsPiece := by
  revert h
  cases kind <;> decide

theorem pieces_of_ok {value : Stmt} {started : List Kind} (h : token.kind.startsPiece)
    (hrun : stmt.run final (token :: rest) = .ok value left started) :
    pieces stmt final (token :: rest) =
      ⟨token :: rest, left, .parsed value started⟩ :: pieces stmt final left := by
  simp only [Kind.startsPiece, Bool.and_eq_true, decide_eq_true_eq] at h
  rw [pieces, if_neg h.1, if_neg h.2]
  split
  · rename_i hrun'
    rw [hrun] at hrun'
    cases hrun'
    rfl
  · rename_i hrun'
    rw [hrun] at hrun'
    cases hrun'

theorem pieces_of_fail {error : SyntaxError} {started : List Kind} (h : token.kind.startsPiece)
    (hrun : stmt.run final (token :: rest) = .fail error left started) :
    pieces stmt final (token :: rest) =
      ⟨token :: rest, skipStatement 0 0 (token :: rest), .failed error started⟩ ::
        pieces stmt final (skipStatement 0 0 (token :: rest)) := by
  simp only [Kind.startsPiece, Bool.and_eq_true, decide_eq_true_eq] at h
  rw [pieces, if_neg h.1, if_neg h.2]
  split
  · rename_i hrun'
    rw [hrun] at hrun'
    cases hrun'
  · rename_i hrun'
    rw [hrun] at hrun'
    cases hrun'
    rfl

namespace Piece

@[simp] theorem error?_blank (start rest : List Token) : (mk start rest .blank).error? = none := rfl

@[simp] theorem error?_parsed (start rest : List Token) (value : Stmt) (started : List Kind) :
    (mk start rest (.parsed value started)).error? = none := rfl

@[simp] theorem error?_failed (start rest : List Token) (error : SyntaxError)
    (started : List Kind) : (mk start rest (.failed error started)).error? = some error := rfl

end Piece

def Piece.results (pieces : List Piece) : List Stmt × List SyntaxError :=
  (pieces.filterMap Piece.stmt?, pieces.filterMap Piece.error?)

theorem results_of_terminator (h : token.kind = .terminator) :
    Piece.results (pieces stmt final (token :: rest)) = Piece.results (pieces stmt final rest) := by
  rw [pieces_of_terminator h]
  rfl

theorem results_of_ok {value : Stmt} {started : List Kind} (h : token.kind.startsPiece)
    (hrun : stmt.run final (token :: rest) = .ok value left started) :
    Piece.results (pieces stmt final (token :: rest)) =
      (value :: (Piece.results (pieces stmt final left)).1,
        (Piece.results (pieces stmt final left)).2) := by
  rw [pieces_of_ok h hrun]
  rfl

theorem results_of_fail {error : SyntaxError} {failed : List Token} {started : List Kind}
    (h : token.kind.startsPiece)
    (hrun : stmt.run final (token :: rest) = .fail error failed started)
    (hskip : skipStatement 0 0 (token :: rest) = left) :
    Piece.results (pieces stmt final (token :: rest)) =
      ((Piece.results (pieces stmt final left)).1,
        error :: (Piece.results (pieces stmt final left)).2) := by
  rw [pieces_of_fail h hrun, hskip]
  rfl

end ShellFrontend
