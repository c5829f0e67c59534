/-! # Delimited literals

A literal is a text between two equal delimiters in which a backslash and a letter
may stand for another character. The same table of escapes writes and reads it.
-/

set_option autoImplicit false

namespace ShellFrontend.Text

/-- A delimiter, and the characters written with a backslash, each with its letter. -/
structure Quoting where
  delimiter : Char
  escapes : List (Char × Char)

namespace Quoting

def string : Quoting :=
  ⟨'"', [('"', '"'), ('\\', '\\'), ('\n', 'n'), ('\t', 't'), ('\r', 'r'), ('\x00', '0')]⟩

def command : Quoting :=
  ⟨'\x60', [('\x60', '\x60'), ('\\', '\\')]⟩

/-- The letter that stands for a character, if it is escaped. -/
def letter? (q : Quoting) (c : Char) : Option Char :=
  q.escapes.lookup c

/-- The character that a letter after a backslash stands for. -/
def meaning? (q : Quoting) (letter : Char) : Option Char :=
  (q.escapes.find? fun entry => entry.2 = letter).map (·.1)

def escape (q : Quoting) : List Char → List Char
  | [] => []
  | c :: rest =>
    match q.letter? c with
    | some letter => '\\' :: letter :: q.escape rest
    | none => c :: q.escape rest

/-- A letter without a meaning stays as written, with its backslash. -/
def unescape (q : Quoting) : List Char → List Char
  | '\\' :: letter :: rest =>
    match q.meaning? letter with
    | some c => c :: q.unescape rest
    | none => '\\' :: letter :: q.unescape rest
  | c :: rest => c :: q.unescape rest
  | [] => []

/-- What stands before the first delimiter that no backslash protects. -/
def body? (q : Quoting) : List Char → Option (List Char)
  | '\\' :: c :: rest => (q.body? rest).map ('\\' :: c :: ·)
  | c :: rest => if c = q.delimiter then some [] else (q.body? rest).map (c :: ·)
  | [] => none

def enclose (q : Quoting) (body : List Char) : List Char :=
  q.delimiter :: (body ++ [q.delimiter])

def write (q : Quoting) (text : List Char) : List Char :=
  q.enclose (q.escape text)

end Quoting

end ShellFrontend.Text
