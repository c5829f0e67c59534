import ShellFrontend.Parser.Many

/-! # Lists between parentheses

Items stand between parentheses with commas between two of them. A comma after the last
item is refused.
-/

set_option autoImplicit false

namespace ShellFrontend

namespace CommaList

variable {α : Type}

/-- An item after a comma; `what` names the list in the error. -/
def itemAfterComma (what : String) (item : Advancing α) : Parser α :=
  .select fun
    | .closeParen => .fail fun token => .misplaced token.text ("trailing comma in " ++ what)
    | _ => item.toParser

def turn (what : String) (item : Advancing α) : Kind → Turn α
  | .comma => .more ((Advancing.token .comma).andThen fun _ => itemAfterComma what item)
  | _ => .stop (Advancing.skip .closeParen)

def items (what : String) (item : Advancing α) : Parser (List α) := do
  let first ← item.toParser
  let others ← Parser.many (turn what item)
  pure (first :: others)

end CommaList

def commaList {α : Type} (what : String) (item : Advancing α) : Advancing (List α) :=
  (Advancing.token .openParen).andThen fun _ =>
    .select fun
      | .closeParen => Advancing.skip .closeParen >>= fun _ => pure []
      | _ => CommaList.items what item

end ShellFrontend
