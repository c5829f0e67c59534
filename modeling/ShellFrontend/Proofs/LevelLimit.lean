import ShellFrontend.Grammar.Statement

/-! # More levels change nothing but where they run out

A parser that is given more levels answers as before, unless it ran out of levels before. The
rules may be any.
-/

set_option autoImplicit false

namespace ShellFrontend

/-- The reply is the error that no level was left. -/
def Reply.RanOut {α : Type} (reply : Reply α) : Prop :=
  ∃ limit position rest started, reply = .fail ⟨.tooDeep limit, position⟩ rest started

namespace Reply

variable {α β : Type} {reply : Reply α}

theorem RanOut.after (h : reply.RanOut) (earlier : List Kind) : (reply.after earlier).RanOut := by
  obtain ⟨limit, position, rest, started, rfl⟩ := h
  exact ⟨limit, position, rest, earlier ++ started, rfl⟩

theorem RanOut.map (h : reply.RanOut) (f : α → β) : (reply.map f).RanOut := by
  obtain ⟨limit, position, rest, started, rfl⟩ := h
  exact ⟨limit, position, rest, started, rfl⟩

end Reply

namespace Parser

variable {α β : Type}

/-- The other parser answers like the first, unless that ran out of levels. -/
def RefinedBy (parser other : Parser α) : Prop :=
  ∀ final tokens,
    other.run final tokens = parser.run final tokens ∨ (parser.run final tokens).RanOut

namespace RefinedBy

theorem refl (parser : Parser α) : parser.RefinedBy parser :=
  fun _ _ => .inl rfl

theorem of_tooDeep (limit : Nat) (other : Parser α) :
    (Parser.fail fun _ => .tooDeep limit).RefinedBy other :=
  fun _ _ => .inr ⟨limit, _, _, _, rfl⟩

theorem bind {parser other : Parser α} {next next' : α → Parser β} (h : parser.RefinedBy other)
    (hnext : ∀ value, (next value).RefinedBy (next' value)) :
    (parser >>= next).RefinedBy (other >>= next') := by
  intro final tokens
  rcases h final tokens with heq | ⟨limit, position, rest, started, hrun⟩
  · cases hrun : parser.run final tokens with
    | fail error rest started =>
      rw [hrun] at heq
      exact .inl (by rw [run_bind_of_fail hrun, run_bind_of_fail heq])
    | ok value rest started =>
      rw [hrun] at heq
      rw [run_bind_of_ok hrun, run_bind_of_ok heq]
      rcases hnext value final rest with heq' | hout
      · exact .inl (by rw [heq'])
      · exact .inr (hout.after started)
  · exact .inr ⟨limit, position, rest, started, run_bind_of_fail hrun⟩

theorem bind_pure {parser other : Parser α} (h : parser.RefinedBy other) (f : α → β) :
    (parser >>= fun value => pure (f value)).RefinedBy (other >>= fun value => pure (f value)) :=
  h.bind fun value => refl (pure (f value))

theorem select {choice choice' : Kind → Parser α}
    (h : ∀ kind, (choice kind).RefinedBy (choice' kind)) :
    (Parser.select choice).RefinedBy (Parser.select choice') :=
  fun final tokens => h _ final tokens

theorem selecting {choice choice' : Kind → Advancing α}
    (h : ∀ kind, (choice kind).toParser.RefinedBy (choice' kind).toParser) :
    (Advancing.select choice).toParser.RefinedBy (Advancing.select choice').toParser :=
  select h

theorem starting {parser other : Advancing α} (kind : Kind) (h : parser.RefinedBy other.toParser) :
    (Advancing.starting kind parser).RefinedBy (Advancing.starting kind other).toParser := by
  intro final tokens
  rw [Advancing.run_starting, Advancing.run_starting]
  rcases h final tokens with heq | hout
  · exact .inl (by rw [heq])
  · exact .inr (hout.after [kind])

end RefinedBy

/-- Items are read by refined parsers, and the stops are the same. -/
inductive Turn.RefinedBy : Turn α → Turn α → Prop
  | more {item other : Advancing α} (h : item.toParser.RefinedBy other.toParser) :
      RefinedBy (.more item) (.more other)
  | stop (last : Parser Unit) : RefinedBy (.stop last) (.stop last)

theorem RefinedBy.many {turn turn' : Kind → Turn α}
    (h : ∀ kind, Turn.RefinedBy (turn kind) (turn' kind)) :
    (Parser.many turn).RefinedBy (Parser.many turn') := by
  intro final tokens
  change runMany turn' final tokens = runMany turn final tokens ∨ (runMany turn final tokens).RanOut
  fun_induction runMany turn final tokens with
  | case1 tokens last hturn =>
    have hboth := h (frontToken final tokens).kind
    generalize hturn' : turn' (frontToken final tokens).kind = other at hboth
    rw [hturn] at hboth
    cases hboth
    exact .inl (runMany_of_stop hturn')
  | case2 tokens item hturn value rest started hrun ih =>
    have hboth := h (frontToken final tokens).kind
    generalize hturn' : turn' (frontToken final tokens).kind = other at hboth
    rw [hturn] at hboth
    cases hboth with
    | more hitem =>
      rcases hitem final tokens with heq | ⟨limit, position, rest, started, hout⟩
      · rw [runMany_of_ok hturn' (heq.trans hrun)]
        rcases ih with heq' | hout
        · exact .inl (by rw [heq'])
        · exact .inr ((hout.map _).after _)
      · rw [hrun] at hout
        cases hout
  | case3 tokens item hturn error rest started hrun =>
    have hboth := h (frontToken final tokens).kind
    generalize hturn' : turn' (frontToken final tokens).kind = other at hboth
    rw [hturn] at hboth
    cases hboth with
    | more hitem =>
      rcases hitem final tokens with heq | hout
      · exact .inl (runMany_of_fail hturn' (heq.trans hrun))
      · rw [hrun] at hout
        obtain ⟨limit, position, rest, started, heq⟩ := hout
        cases heq
        exact .inr ⟨limit, position, _, _, rfl⟩

end Parser

open ShellFrontend.Parser (RefinedBy)

/-- Another layer in which levels are left for longer. -/
structure Layer.RefinedBy (layer other : Layer) : Prop where
  expr : ∀ floor, (layer.expr floor).toParser.RefinedBy (other.expr floor).toParser
  block : layer.block.toParser.RefinedBy other.block.toParser

theorem commaList_refined {α : Type} {item other : Advancing α} (what : String)
    (h : item.toParser.RefinedBy other.toParser) :
    (commaList what item).toParser.RefinedBy (commaList what other).toParser := by
  have hmany : (Parser.many (CommaList.turn what item)).RefinedBy
      (Parser.many (CommaList.turn what other)) := by
    refine .many fun kind => ?_
    unfold CommaList.turn
    split
    · refine .more (.bind (.refl _) fun _ => .select fun kind => ?_)
      split
      · exact .refl _
      · exact h
    · exact .stop _
  refine .bind (.refl _) fun _ => .select fun kind => ?_
  split
  · exact .refl _
  · exact .bind h fun _ => hmany.bind_pure _

namespace Operand

variable {layer other : Layer}

theorem alternative_refined (h : layer.RefinedBy other) :
    (alternative layer).RefinedBy (alternative other) := by
  refine .bind (.refl _) fun _ => .select fun kind => ?_
  split
  · exact .bind (.refl _) fun _ => h.block.bind_pure _
  · exact .refl _

theorem rule_refined (h : layer.RefinedBy other) (rule : OperandRule) :
    (rule.parser layer).toParser.RefinedBy (rule.parser other).toParser := by
  cases rule with
  | literal => exact .refl _
  | identifier =>
    refine .bind (.refl _) fun _ => .select fun kind => ?_
    split
    · exact (commaList_refined _ (h.expr _)).bind_pure _
    · exact .refl _
  | unary => exact .bind (.refl _) fun _ => (h.expr _).bind_pure _
  | grouping => exact .bind (.refl _) fun _ => .bind (h.expr _) fun _ => .refl _
  | conditional =>
    exact .bind (.refl _) fun _ => .bind (.refl _) fun _ => .bind (h.expr _) fun _ =>
      .bind (.refl _) fun _ => .bind h.block fun _ => (alternative_refined h).bind_pure _
  | function => exact .bind (.refl _) fun _ => .bind (.refl _) fun _ => h.block.bind_pure _

end Operand

variable {layer other : Layer} (rules : Rules)

theorem operand_refined (h : layer.RefinedBy other) :
    (operand rules layer).toParser.RefinedBy (operand rules other).toParser := by
  refine .selecting fun kind => ?_
  split
  · exact Operand.rule_refined h _
  · exact .refl _

theorem operation_refined (h : layer.RefinedBy other) (power : Power) :
    (Expression.operation layer power).toParser.RefinedBy
      (Expression.operation other power).toParser :=
  .bind (.refl _) fun _ => (h.expr power).bind_pure _

theorem expression_refined (h : layer.RefinedBy other) (floor : Power) :
    (expression rules layer floor).toParser.RefinedBy (expression rules other floor).toParser := by
  refine .bind (operand_refined rules h) fun _ => RefinedBy.bind_pure (.many fun kind => ?_) _
  unfold Expression.turn
  split
  · split
    · exact .more (operation_refined h _)
    · exact .stop _
  · exact .stop _

theorem StatementRule.parser_refined (h : layer.RefinedBy other) (rule : StatementRule) :
    (rule.parser layer).toParser.RefinedBy (rule.parser other).toParser := by
  cases rule with
  | binding =>
    exact .bind (.refl _) fun _ => .bind (.refl _) fun _ => .bind (.refl _) fun _ =>
      .bind (h.expr _) fun _ => .refl _
  | result => exact .bind (.refl _) fun _ => .bind (h.expr _) fun _ => .refl _
  | block => exact h.block.bind_pure _

theorem statement_refined (h : layer.RefinedBy other) :
    (statement rules layer).toParser.RefinedBy (statement rules other).toParser := by
  refine .selecting fun kind => .starting kind ?_
  split
  · exact StatementRule.parser_refined h _
  · exact .bind (h.expr _) fun _ => .refl _

theorem bracedBlock_refined (h : layer.RefinedBy other) :
    (bracedBlock rules layer).toParser.RefinedBy (bracedBlock rules other).toParser := by
  refine .bind (.refl _) fun _ => RefinedBy.bind_pure (.many fun kind => ?_) _
  unfold Block.turn
  split
  · exact .stop _
  · exact .stop _
  · exact .more (.refl _)
  · exact .more ((statement_refined rules h).bind_pure _)

theorem Layer.ofLevels_refined {levels levels' : Nat} (hle : levels ≤ levels') :
    (Layer.ofLevels rules levels).RefinedBy (.ofLevels rules levels') := by
  induction levels generalizing levels' with
  | zero => exact ⟨fun _ => .of_tooDeep _ _, .of_tooDeep _ _⟩
  | succ levels ih =>
    obtain ⟨levels', rfl⟩ := Nat.exists_eq_add_of_le' hle
    have hinner := ih (Nat.le_add_left levels levels')
    exact ⟨fun floor => expression_refined rules hinner floor, bracedBlock_refined rules hinner⟩

end ShellFrontend
