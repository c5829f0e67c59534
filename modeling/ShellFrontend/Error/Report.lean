import ShellFrontend.Error.Basic
import ShellFrontend.Source.Line
import ShellFrontend.Text.Blank

/-! # Error reports

A report quotes the line of an error without its indentation and points a caret at the
offending character. Lines one to five: title and tip, file, empty gutter, source line,
caret.
-/

set_option autoImplicit false

namespace ShellFrontend.SyntaxError

def isIndent (c : Char) : Bool :=
  c = ' ' || c = '\t'

def headline (error : SyntaxError) : List Char :=
  let title := "Error: " ++ error.cause.title
  (match error.cause.tip? with
    | none => title
    | some tip => title ++ " (" ++ tip ++ ")").toList

/-- The bar left of the caret, below the bar after a line number. -/
def gutter (number : Nat) : List Char :=
  List.replicate ((Nat.toDigits 10 number).length + 1) ' ' ++ ['|']

def quotedLine (line : SourceLine) : List Char :=
  Nat.toDigits 10 line.number ++ [' ', '|', ' '] ++
    Text.trimEnd (line.text.dropWhile isIndent)

/-- Dashes up to the column of the error in the quoted line, and the caret. -/
def caretLine (line : SourceLine) : List Char :=
  let indent := (line.text.takeWhile isIndent).length
  gutter line.number ++ ' ' :: List.replicate (line.column - indent) '-' ++ ['^']

def reportLines (error : SyntaxError) (source : List Char) : List (List Char) :=
  let line := lineAt source error.position.offset.toNat
  [error.headline, "-> ".toList ++ error.position.file.toList, gutter line.number,
    quotedLine line, caretLine line]

/-- The five parts of a report with a line break between two. -/
def report (error : SyntaxError) (source : String) : String :=
  String.ofList (['\n'].intercalate (error.reportLines source.toList))

end ShellFrontend.SyntaxError
