import ShellFrontend.Token.Kind

/-! # Reserved words

The nine words that are no identifiers, and the kind of any scanned word.
-/

set_option autoImplicit false

namespace ShellFrontend.Keyword

def table : List (String × Kind) :=
  [("let", .letWord), ("fn", .fnWord), ("if", .ifWord), ("else", .elseWord), ("for", .forWord),
    ("in", .inWord), ("return", .returnWord), ("true", .trueWord), ("false", .falseWord)]

def kind? (word : String) : Option Kind :=
  table.lookup word

/-- A word that is not reserved is an identifier. -/
def kindOf (word : String) : Kind :=
  (kind? word).getD .identifier

end ShellFrontend.Keyword
