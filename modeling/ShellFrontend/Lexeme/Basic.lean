import ShellFrontend.Token.Kind

/-! # Lexemes

A lexeme is a stretch of source text with the token it stands for; blanks and
comments stand for none. Lexemes know nothing of offsets and files.
-/

set_option autoImplicit false

namespace ShellFrontend

structure Lexeme where
  written : List Char
  token : Option (Kind × String)
  deriving DecidableEq, Repr

namespace Lexeme

def skipped (written : List Char) : Lexeme :=
  ⟨written, none⟩

/-- A token whose text is what was written. -/
def verbatim (kind : Kind) (written : List Char) : Lexeme :=
  ⟨written, some (kind, String.ofList written)⟩

end Lexeme

end ShellFrontend
