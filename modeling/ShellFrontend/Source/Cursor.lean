import ShellFrontend.Text.Bytes
import ShellFrontend.Token.Basic

/-! # A cursor in a source

The cursor is a byte offset that may stand anywhere, also inside a character or past
the end. Text can be read only between two characters.
-/

set_option autoImplicit false

namespace ShellFrontend

structure Cursor where
  source : String
  file : String
  offset : Nat

namespace Cursor

def start (source file : String) : Cursor :=
  ⟨source, file, 0⟩

def advance (cursor : Cursor) (count : Nat) : Cursor :=
  { cursor with offset := cursor.offset + count }

/-- The text from the cursor on; none where no character starts and the source does not end. -/
def remaining? (cursor : Cursor) : Option (List Char) :=
  (Text.splitBytes? cursor.offset cursor.source.toList).map (·.2)

/-- The character at the cursor, which is none at the end of the source. -/
def current? (cursor : Cursor) : Option (Option Char) :=
  cursor.remaining?.map List.head?

def atEnd (cursor : Cursor) : Bool :=
  Text.byteLength cursor.source.toList ≤ cursor.offset

def span (cursor : Cursor) (start stop : Nat) : Span :=
  Span.between cursor.file start stop

end Cursor

end ShellFrontend
