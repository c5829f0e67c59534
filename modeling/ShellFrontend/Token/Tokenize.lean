import ShellFrontend.Lexeme.Scan
import ShellFrontend.Text.Bytes
import ShellFrontend.Token.Basic

/-! # Tokens of a source

The tokens of a text are its lexemes, each with the span of bytes it covers, and an
end marker after them.
-/

set_option autoImplicit false

namespace ShellFrontend

/-- Tokens for lexemes that begin at a byte offset. -/
def Token.ofLexemes (file : String) (offset : Nat) : List Lexeme → List Token
  | [] => [endMarker ⟨UInt32.ofNat offset, file⟩]
  | lexeme :: rest =>
    let stop := offset + Text.byteLength lexeme.written
    match lexeme.token with
    | none => ofLexemes file stop rest
    | some (kind, text) => ⟨kind, text, Span.between file offset stop⟩ :: ofLexemes file stop rest

def tokenize (source file : String) : List Token :=
  Token.ofLexemes file 0 (Lexeme.ofSource source.toList)

def defaultFile : String := "shell"

end ShellFrontend
