import ShellFrontend.Proofs.Climb
import ShellFrontend.Proofs.GrammarReads

/-! # How phrases begin and end

The tokens with which the phrases of a nonterminal begin, what may stand behind an expression,
and how the parsers choose between rules by these tokens.
-/

set_option autoImplicit false

namespace ShellFrontend

open ShellFrontend.Parser (Decides)

def Kind.startsOperand (kind : Kind) : Bool :=
  (Rules.standard.operand kind).isSome

def Kind.startsStatement (kind : Kind) : Bool :=
  kind.startsOperand || (Rules.standard.statement kind).isSome

theorem Literal.literal?_eq {token : Token} {expr : Expr} (h : Literal token expr) :
    Operand.literal? token = some expr := by
  unfold Operand.literal?
  cases h with
  | number h hvalue hfinite => simp only [h, hvalue, hfinite, if_true]
  | string h | command h | yes h | no h => simp only [h]

theorem Literal.kind {token : Token} {expr : Expr} (h : Literal token expr) :
    Rules.standard.operand token.kind = some .literal := by
  cases h with
  | number h | string h | command h | yes h | no h => rw [h]; rfl

theorem headKind_frontToken (final : Position) (phrase rest : List Token) :
    (frontToken final (phrase ++ rest)).kind = headKind (frontToken final rest).kind phrase := by
  cases phrase <;> rfl

/-- How the phrases of a nonterminal begin. -/
def Symbol.Starts : Symbol → List Token → Prop
  | tier _, phrase | unary, phrase | operand, phrase | arguments, phrase =>
    ∃ token rest, phrase = token :: rest ∧ token.kind.startsOperand
  | block, phrase => ∃ token rest, phrase = token :: rest ∧ token.kind = .openBrace
  | statement, phrase => ∃ token rest, phrase = token :: rest ∧ token.kind.startsStatement
  | body, phrase => ∀ token ∈ phrase.head?, token.kind = .terminator ∨ token.kind.startsStatement
  | alternative, _ => True

theorem Derives.starts {symbol : Symbol} {levels : Nat} {phrase : List Token} {next : Kind}
    {tree : symbol.Tree} (h : Derives symbol levels phrase next tree) : symbol.Starts phrase := by
  induction h with
  | tighter _ _ ih => exact ih
  | tightest _ ih => exact ih
  | operand _ ih => exact ih
  | lastArgument _ ih => exact ih
  | binary _ _ _ ih =>
    obtain ⟨token, rest, rfl, hkind⟩ := ih
    exact ⟨token, _, rfl, hkind⟩
  | argument _ _ _ ih =>
    obtain ⟨token, rest, rfl, hkind⟩ := ih
    exact ⟨token, _, rfl, hkind⟩
  | @unary op _ _ _ _ _ hop =>
    refine ⟨_, _, rfl, ?_⟩
    rw [← hop]
    cases op <;> rfl
  | literal h => exact ⟨_, _, rfl, by rw [Kind.startsOperand, h.kind]; rfl⟩
  | identifier h | call h | callWith h | grouping h | conditional h | function h =>
    exact ⟨_, _, rfl, by rw [h]; rfl⟩
  | noAlternative | alternative | alternativeOnNextLine => trivial
  | block h => exact ⟨_, _, rfl, h⟩
  | emptyBody =>
    intro token htoken
    cases htoken
  | emptyStatement hstop =>
    intro token htoken
    cases htoken
    exact .inl hstop
  | statements _ _ ih =>
    obtain ⟨token, rest, rfl, hkind⟩ := ih
    intro token' htoken
    cases htoken
    exact .inr hkind
  | binding h | result h => exact ⟨_, _, rfl, by rw [h]; rfl⟩
  | expression _ _ ih =>
    obtain ⟨token, rest, rfl, hkind⟩ := ih
    exact ⟨token, _, rfl, by rw [Kind.startsStatement, hkind]; rfl⟩
  | blockStatement _ ih =>
    obtain ⟨token, rest, rfl, hkind⟩ := ih
    exact ⟨token, rest, rfl, by rw [hkind]; rfl⟩

/-- What binds more strongly may stand where less strength is asked for. -/
theorem Derives.loosen {index index' levels : Nat} {phrase : List Token} {next : Kind} {expr : Expr}
    (h : Derives (.tier index) levels phrase next expr) (hindex : index ≤ 4) (hle : index' ≤ index) :
    Derives (.tier index') levels phrase next expr := by
  induction hle with
  | refl => exact h
  | step _ ih => exact ih (.tighter (by omega) h) (by omega)

/-- Tokens that do not continue a conditional without an alternative. -/
structure Follows (final : Position) (next : Kind) (rest : List Token) : Prop where
  front : (frontToken final rest).kind = next
  not_elseWord : next ≠ .elseWord
  not_elseOnNextLine : elseOnNextLine rest = false

namespace Follows

variable {final : Position} {next : Kind} {rest : List Token}

theorem of_ne_terminator (h : (frontToken final rest).kind = next) (hword : next ≠ .elseWord)
    (hstop : next ≠ .terminator) : Follows final next rest where
  front := h
  not_elseWord := hword
  not_elseOnNextLine := by
    cases rest with
    | nil => rfl
    | cons token rest =>
      have hkind : token.kind = next := h
      simp [elseOnNextLine_cons final, Token.isLineBreak, hkind, hstop]

theorem of_ends {stop : List Token} (hstop : Ends next stop)
    (h : (frontToken final rest).kind = next) (hword : next ≠ .elseWord) :
    Follows final (headKind next stop) (stop ++ rest) := by
  cases hstop with
  | @terminator token hkind =>
    refine ⟨rfl, by simp [headKind, hkind], ?_⟩
    simp [elseOnNextLine_cons final, h, hword]
  | outside hnext =>
    refine of_ne_terminator h hword ?_
    rcases hnext with rfl | rfl <;> simp [headKind]

end Follows

theorem operatorRank_of_ends {next : Kind} {stop : List Token} (h : Ends next stop) :
    operatorRank (headKind next stop) = 0 := by
  cases h with
  | terminator h => rw [headKind, h]; rfl
  | outside h => rcases h with rfl | rfl <;> rfl

section runs

variable {layer : Layer} {final : Position} {token : Token} {rest : List Token}

theorem run_operand_of_rule {rules : Rules} {rule : OperandRule}
    (h : rules.operand token.kind = some rule) :
    (operand rules layer).run final (token :: rest) =
      (rule.parser layer).run final (token :: rest) := by
  rw [operand, Advancing.run_select, frontToken_cons, h]

theorem run_operand_of_literal {rules : Rules} {value : Expr}
    (hrule : rules.operand token.kind = some .literal) (h : Literal token value) :
    (operand rules layer).run final (token :: rest) = .ok value rest [] :=
  (run_operand_of_rule hrule).trans (Advancing.run_accept_of_some h.literal?_eq _ _)

theorem run_operand_of_identifier {rules : Rules}
    (hrule : rules.operand token.kind = some .identifier) (h : token.kind = .identifier)
    (hnext : (frontToken final rest).kind ≠ .openParen) :
    (operand rules layer).run final (token :: rest) = .ok (.identifier token.text) rest [] := by
  apply (run_operand_of_rule hrule).trans
  apply (Parser.run_bind_of_ok (Advancing.run_token_of_kind h final rest)).trans
  rw [Reply.after_nil, Parser.run_select]
  split
  · contradiction
  · rfl

theorem run_statement_of_rule {rule : StatementRule}
    (h : Rules.standard.statement token.kind = some rule) :
    (statement .standard layer).run final (token :: rest) =
      (Advancing.starting token.kind (rule.parser layer)).run final (token :: rest) := by
  rw [statement, Advancing.run_select, frontToken_cons, h]

theorem run_statement_of_startsOperand (h : token.kind.startsOperand) :
    (statement .standard layer).run final (token :: rest) =
      (Advancing.starting token.kind (Statement.expression layer)).run final (token :: rest) := by
  have hnone : Rules.standard.statement token.kind = none := by
    revert h
    cases token.kind <;> decide
  rw [statement, Advancing.run_select, frontToken_cons, hnone]

theorem turn_of_startsStatement {kind : Kind} (h : kind.startsStatement) :
    Block.turn .standard layer kind = .more ((statement .standard layer).map some) := by
  unfold Block.turn
  split <;> first | rfl | cases h

end runs

namespace CommaList

variable {α : Type} {what : String} {item : Advancing α} {final : Position} {tokens : List Token}

/-- Behind a comma a list goes on as it began. -/
theorem run_many_comma {comma : Token} (hcomma : comma.kind = .comma)
    (h : (frontToken final tokens).kind ≠ .closeParen) :
    (Parser.many (turn what item)).run final (comma :: tokens) =
      (items what item).run final tokens := by
  have hturn : turn what item (frontToken final (comma :: tokens)).kind =
      .more ((Advancing.token .comma).andThen fun _ => itemAfterComma what item) := by
    rw [frontToken_cons, hcomma]
    rfl
  have hitem : ((Advancing.token .comma).andThen fun _ => itemAfterComma what item).run final
      (comma :: tokens) = item.run final tokens := by
    have hselect : (itemAfterComma what item).run final tokens = item.run final tokens := by
      rw [itemAfterComma, Parser.run_select]
      split
      · contradiction
      · rfl
    apply (Parser.run_bind_of_ok (Advancing.run_token_of_kind hcomma final tokens)).trans
    rw [Reply.after_nil, hselect]
  change Parser.runMany _ _ _ = _
  rw [items]
  cases hfirst : item.run final tokens with
  | fail error rest started =>
    rw [Parser.runMany_of_fail hturn (hitem.trans hfirst), Parser.run_bind_of_fail hfirst]
  | ok value middle started =>
    rw [Parser.runMany_of_ok hturn (hitem.trans hfirst), Parser.run_bind_of_ok hfirst]
    cases hrest : (Parser.many (turn what item)).run final middle with
    | fail error rest started' =>
      have hmany : Parser.runMany (turn what item) final middle = .fail error rest started' := hrest
      rw [hmany, Parser.run_bind_of_fail hrest]
      rfl
    | ok values rest started' =>
      have hmany : Parser.runMany (turn what item) final middle = .ok values rest started' := hrest
      rw [hmany, Parser.run_bind_of_ok hrest]
      simp [Reply.after, Reply.map]

theorem items_decides_last {enough : Prop} {value : α} {closing : Token} {rest : List Token}
    (hclosing : closing.kind = .closeParen)
    (h : item.Decides final tokens enough value (closing :: rest)) :
    (items what item).Decides final tokens enough [value] rest := by
  have hmany : (Parser.many (turn what item)).Decides final (closing :: rest) True [] rest := by
    have hturn : turn what item (frontToken final (closing :: rest)).kind =
        .stop (Advancing.skip .closeParen) := by
      rw [frontToken_cons, hclosing]
      rfl
    exact Decides.many_stop hturn (Advancing.run_skip_of_kind hclosing final rest)
  exact (h.bind (hmany.bind_pure _)).congr (iff_of_eq (and_true _))

theorem items_decides_more {enough enough' : Prop} {value : α} {values : List α} {comma : Token}
    {tokens' rest : List Token} (hcomma : comma.kind = .comma)
    (hnext : (frontToken final tokens').kind ≠ .closeParen)
    (h : item.Decides final tokens enough value (comma :: tokens'))
    (htail : (items what item).Decides final tokens' enough' values rest) :
    (items what item).Decides final tokens (enough ∧ enough') (value :: values) rest :=
  h.bind ((htail.of_run_eq (run_many_comma hcomma hnext)).bind_pure _)

theorem commaList_decides {enough : Prop} {values : List α} {opening : Token} {rest : List Token}
    (hopening : opening.kind = .openParen) (hnext : (frontToken final tokens).kind ≠ .closeParen)
    (h : (items what item).Decides final tokens enough values rest) :
    (commaList what item).Decides final (opening :: tokens) enough values rest := by
  refine Decides.after (Advancing.run_token_of_kind hopening final tokens) (h.of_run_eq ?_)
  rw [Parser.run_select]
  split
  · contradiction
  · rfl

theorem run_commaList_empty {opening closing : Token} (hopening : opening.kind = .openParen)
    (hclosing : closing.kind = .closeParen) (rest : List Token) :
    (commaList what item).run final (opening :: closing :: rest) = .ok [] rest [] := by
  apply (Parser.run_bind_of_ok (Advancing.run_token_of_kind hopening final _)).trans
  rw [Reply.after_nil, Parser.run_select, frontToken_cons, hclosing]
  exact Parser.run_bind_of_ok (Advancing.run_skip_of_kind hclosing final rest)

end CommaList

end ShellFrontend
