import ShellFrontend.Text.Bytes

/-! # Lines of a source

A byte offset lies on one line of a source. Offsets past the end belong to the last
line, which is an empty one after a final line break.
-/

set_option autoImplicit false

namespace ShellFrontend

/-- A line with its number from one, and a column counted in characters from zero. -/
structure SourceLine where
  number : Nat
  text : List Char
  column : Nat
  deriving DecidableEq, Repr

namespace SourceLine

/-- A source cut after each line break. -/
def split : List Char → List (List Char)
  | [] => []
  | c :: rest =>
    if c = '\n' then [c] :: split rest
    else
      match split rest with
      | [] => [[c]]
      | line :: lines => (c :: line) :: lines

/-- The number of characters before a byte offset; an offset inside a character counts
for itself. -/
def columnOf (line : List Char) (offset : Nat) : Nat :=
  match Text.splitBytes? offset line with
  | some (before, _) => before.length
  | none => offset

/-- Looks for an offset among lines, of which the first has the given number. -/
def find (number offset : Nat) : List (List Char) → SourceLine
  | [] => ⟨number, [], 0⟩
  | line :: lines =>
    if offset < Text.byteLength line then ⟨number, line, columnOf line offset⟩
    else if lines.isEmpty && line.getLast? != some '\n' then ⟨number, line, line.length⟩
    else find (number + 1) (offset - Text.byteLength line) lines

end SourceLine

def lineAt (source : List Char) (offset : Nat) : SourceLine :=
  SourceLine.find 1 offset (SourceLine.split source)

end ShellFrontend
