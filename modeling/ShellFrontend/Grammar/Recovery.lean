import ShellFrontend.Token.Basic

/-! # Skipping a failed statement

A failed statement is skipped from its first token to just past its end, so that the
next statement is read as if nothing had gone wrong.
-/

set_option autoImplicit false

namespace ShellFrontend

namespace Recovery

/-- The words with which a statement can only start. -/
def startsStatement : List Token → Bool
  | [] => false
  | token :: _ => token.kind = .letWord || token.kind = .returnWord

/-- Terminators between braces end nothing. Between parentheses only a line break before
a word that starts a statement does. -/
def endsAt (braces parens : Nat) (token : Token) (rest : List Token) : Bool :=
  braces = 0 && (parens = 0 || token.isLineBreak && startsStatement rest)

end Recovery

/-- The tokens after the statement at the front, of which some braces and parentheses are
open. A closing brace without an opening one ends the statement as well. -/
def skipStatement (braces parens : Nat) : List Token → List Token
  | [] => []
  | token :: rest =>
    match token.kind with
    | .endOfInput => token :: rest
    | .terminator =>
      if Recovery.endsAt braces parens token rest then rest else skipStatement braces parens rest
    | .openBrace => skipStatement (braces + 1) parens rest
    | .closeBrace => if braces = 0 then rest else skipStatement (braces - 1) parens rest
    | .openParen => skipStatement braces (parens + 1) rest
    | .closeParen => skipStatement braces (parens - 1) rest
    | _ => skipStatement braces parens rest

theorem skipStatement_suffix (braces parens : Nat) (tokens : List Token) :
    skipStatement braces parens tokens <:+ tokens := by
  fun_induction skipStatement braces parens tokens with
  | case1 => exact List.suffix_refl _
  | case2 => exact List.suffix_refl _
  | case3 => exact List.suffix_cons _ _
  | case6 => exact List.suffix_cons _ _
  | _ => exact List.IsSuffix.trans ‹_› (List.suffix_cons _ _)

/-- At least one token is skipped, unless the tokens are at their end. -/
theorem skipStatement_cons_suffix (braces parens : Nat) {token : Token} {rest : List Token}
    (h : token.kind ≠ .endOfInput) : skipStatement braces parens (token :: rest) <:+ rest := by
  rw [skipStatement]
  split
  · contradiction
  · split
    · exact List.suffix_refl _
    · exact skipStatement_suffix _ _ _
  · exact skipStatement_suffix _ _ _
  · split
    · exact List.suffix_refl _
    · exact skipStatement_suffix _ _ _
  all_goals exact skipStatement_suffix _ _ _

end ShellFrontend
