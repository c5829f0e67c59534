import ShellFrontend.Token.Kind
import ShellFrontend.Text.Quoted

/-! # Tokens

A position is a byte offset into a named source; offsets are 32-bit words. A token
carries its kind, its decoded text and the span it was read from.
-/

set_option autoImplicit false

namespace ShellFrontend

structure Position where
  offset : UInt32
  file : String
  deriving DecidableEq, Repr

structure Span where
  start : Position
  stop : Position
  deriving DecidableEq, Repr

/-- The span between two byte counts, each cut to 32 bits. -/
def Span.between (file : String) (start stop : Nat) : Span :=
  ⟨⟨UInt32.ofNat start, file⟩, ⟨UInt32.ofNat stop, file⟩⟩

structure Token where
  kind : Kind
  text : String
  span : Span
  deriving DecidableEq, Repr

namespace Token

/-- The marker that stands where a source ends. -/
def endMarker (position : Position) : Token :=
  ⟨.endOfInput, "EOF", ⟨position, position⟩⟩

@[simp] theorem kind_endMarker (position : Position) :
    (endMarker position).kind = .endOfInput := rfl

/-- A terminator that is a line break and not a written semicolon. -/
def isLineBreak (token : Token) : Bool :=
  token.kind = .terminator && token.text = "\n"

/-- Kind and quoted text over three lines. -/
def description (token : Token) : String :=
  "Token \x7b\nkind: " ++ token.kind.label ++ ",\nvalue: " ++ Text.quoted token.text ++ "\x7d"

end Token

end ShellFrontend
