import ShellFrontend.Proofs.Decides
import ShellFrontend.Proofs.Derivation

/-! # Climbing over operators

An expression is read as its first operand and then extended to the right for as long as
operators above the floor follow. Its tree so far is an argument of the loop.
-/

set_option autoImplicit false

namespace ShellFrontend

open ShellFrontend.Parser (Decides)

def BinaryOperator.power : BinaryOperator → Power
  | equals | notEquals => .equality
  | less | lessEquals | greater | greaterEquals => .relational
  | plus | minus => .additive
  | multiply | divide | modulo => .multiplicative

namespace BinaryOperator

theorem operator_kind (op : BinaryOperator) : Rules.standard.operator op.kind = some op.power := by
  cases op <;> rfl

theorem rank_power (op : BinaryOperator) : op.power.rank = op.tier + 1 := by
  cases op <;> rfl

theorem tier_lt (op : BinaryOperator) : op.tier < 4 := by
  cases op <;> decide

end BinaryOperator

/-- How strongly a kind of token binds as an infix operator; `0` if it is none. -/
def operatorRank (kind : Kind) : Nat :=
  match Rules.standard.operator kind with
  | some power => power.rank
  | none => 0

theorem operatorRank_kind (op : BinaryOperator) : operatorRank op.kind = op.tier + 1 := by
  cases op <;> rfl

theorem operatorRank_le (kind : Kind) : operatorRank kind ≤ Power.unary.rank := by
  cases kind <;> decide

namespace Expression

variable {layer : Layer} {floor : Power} {kind : Kind}

theorem turn_of_operatorRank_le (h : operatorRank kind ≤ floor.rank) :
    turn .standard layer floor kind = .stop (pure ()) := by
  unfold turn operatorRank at *
  split
  · rename_i power hpower
    rw [hpower] at h
    exact if_neg (Nat.not_lt.2 h)
  · rfl

theorem turn_kind (op : BinaryOperator) (h : floor.rank ≤ op.tier) :
    turn .standard layer floor op.kind = .more (operation layer op.power) := by
  unfold turn
  rw [op.operator_kind]
  exact if_pos (by rw [op.rank_power]; omega)

/-- Extends a tree by the operators above the floor that follow. -/
def climb (layer : Layer) (floor : Power) (left : Expr) : Parser Expr := do
  let steps ← Parser.many (turn .standard layer floor)
  pure (steps.foldl combine left)

variable {final : Position} {left : Expr}

theorem run_climb_stop {tokens : List Token}
    (h : operatorRank (frontToken final tokens).kind ≤ floor.rank) :
    (climb layer floor left).run final tokens = .ok left tokens [] := by
  have hmany : (Parser.many (turn .standard layer floor)).run final tokens = .ok [] tokens [] :=
    Parser.runMany_of_stop (turn_of_operatorRank_le h)
  rw [climb, Parser.run_bind_of_ok hmany]
  rfl

/-- One turn of the loop, with the operation made part of the tree at once. -/
theorem run_climb_more (op : BinaryOperator) (h : floor.rank ≤ op.tier) {token : Token}
    (htoken : op.kind = token.kind) (rest : List Token) :
    (climb layer floor left).run final (token :: rest) =
      ((operation layer op.power).toParser >>= fun step =>
        climb layer floor (combine left step)).run final (token :: rest) := by
  have hturn : turn .standard layer floor (frontToken final (token :: rest)).kind =
      .more (operation layer op.power) := by
    rw [frontToken_cons, ← htoken, turn_kind op h]
  cases hfirst : (operation layer op.power).run final (token :: rest) with
  | fail error rest' started =>
    have hmany : (Parser.many (turn .standard layer floor)).run final (token :: rest) =
        .fail error rest' started := Parser.runMany_of_fail hturn hfirst
    rw [Parser.run_bind_of_fail hfirst, climb, Parser.run_bind_of_fail hmany]
  | ok step middle started =>
    have hmany : (Parser.many (turn .standard layer floor)).run final (token :: rest) =
        (((Parser.many (turn .standard layer floor)).run final middle).map (step :: ·)).after
          started := Parser.runMany_of_ok hturn hfirst
    rw [Parser.run_bind_of_ok hfirst, climb, climb]
    cases hrest : (Parser.many (turn .standard layer floor)).run final middle with
    | fail error rest' started' =>
      rw [hrest] at hmany
      rw [Parser.run_bind_of_fail hmany, Parser.run_bind_of_fail hrest]
      rfl
    | ok steps rest' started' =>
      rw [hrest] at hmany
      rw [Parser.run_bind_of_ok hmany, Parser.run_bind_of_ok hrest]
      simp [Reply.after]

end Expression

end ShellFrontend
