import ShellFrontend.Error.Basic

/-! # Replies of a parser

A parser answers with a value or an error. Either way it leaves some of the tokens, and
tells the kinds of the tokens at which it started statements.
-/

set_option autoImplicit false

namespace ShellFrontend

inductive Reply (α : Type) where
  | ok (value : α) (rest : List Token) (started : List Kind)
  | fail (error : SyntaxError) (rest : List Token) (started : List Kind)
  deriving DecidableEq

namespace Reply

variable {α β : Type}

def rest : Reply α → List Token
  | ok _ rest _ => rest
  | fail _ rest _ => rest

/-- The first tokens of the statements that were started, in order. -/
def started : Reply α → List Kind
  | ok _ _ started => started
  | fail _ _ started => started

def result : Reply α → Except SyntaxError α
  | ok value _ _ => .ok value
  | fail error _ _ => .error error

/-- The same reply with statements that had been started before. -/
def after (earlier : List Kind) : Reply α → Reply α
  | ok value rest started => ok value rest (earlier ++ started)
  | fail error rest started => fail error rest (earlier ++ started)

def map (f : α → β) : Reply α → Reply β
  | ok value rest started => ok (f value) rest started
  | fail error rest started => fail error rest started

@[simp] theorem rest_ok (value : α) (rest : List Token) (started : List Kind) :
    (ok value rest started).rest = rest := rfl

@[simp] theorem rest_fail (error : SyntaxError) (rest : List Token) (started : List Kind) :
    (fail error rest started : Reply α).rest = rest := rfl

@[simp] theorem rest_after (earlier : List Kind) (reply : Reply α) :
    (reply.after earlier).rest = reply.rest := by
  cases reply <;> rfl

@[simp] theorem rest_map (f : α → β) (reply : Reply α) : (reply.map f).rest = reply.rest := by
  cases reply <;> rfl

@[simp] theorem after_nil (reply : Reply α) : reply.after [] = reply := by
  cases reply <;> rfl

theorem after_after (earlier later : List Kind) (reply : Reply α) :
    (reply.after later).after earlier = reply.after (earlier ++ later) := by
  cases reply <;> simp [after]

end Reply

end ShellFrontend
