import Mathlib.Data.List.GetD
import ShellFrontend.Proofs.ErrorCauses

/-! # Tokens that agree are parsed alike

Of a token a parser looks at the kind, at the text if it becomes part of a tree, and at whether it
is a line break. Two runs on tokens that agree in this are followed side by side: they give the
same trees, and errors with the same causes at the same places of the two lists. Only the positions
and texts that the errors show come from elsewhere.
-/

set_option autoImplicit false

namespace ShellFrontend

/-- The kinds whose texts become part of a tree. -/
def Kind.carriesText : Kind → Bool
  | .identifier | .number | .string | .command => true
  | _ => false

/-- Tokens that differ at most in their spans and in texts that no tree carries. -/
structure Token.Agrees (token other : Token) : Prop where
  kind_eq : token.kind = other.kind
  text_eq : token.kind.carriesText → token.text = other.text
  isLineBreak_eq : token.isLineBreak = other.isLineBreak

instance (token other : Token) : Decidable (token.Agrees other) :=
  decidable_of_iff
    (token.kind = other.kind ∧ (token.kind.carriesText → token.text = other.text) ∧
      token.isLineBreak = other.isLineBreak)
    ⟨fun h => ⟨h.1, h.2.1, h.2.2⟩, fun h => ⟨h.kind_eq, h.text_eq, h.isLineBreak_eq⟩⟩

theorem Token.agrees_endMarker (position position' : Position) :
    (endMarker position).Agrees (endMarker position') :=
  ⟨rfl, fun _ => rfl, rfl⟩

/-- Lists of tokens that agree one by one. -/
abbrev TokensAgree (tokens others : List Token) : Prop :=
  List.Forall₂ Token.Agrees tokens others

namespace TokensAgree

variable {tokens others : List Token}

theorem front (h : TokensAgree tokens others) (final final' : Position) :
    (frontToken final tokens).Agrees (frontToken final' others) := by
  cases h with
  | nil => exact Token.agrees_endMarker final final'
  | cons htoken _ => exact htoken

theorem tail (h : TokensAgree tokens others) : TokensAgree tokens.tail others.tail := by
  cases h with
  | nil => exact .nil
  | cons _ hrest => exact hrest

theorem elseOnNextLine_eq (h : TokensAgree tokens others) :
    elseOnNextLine tokens = elseOnNextLine others := by
  have final : Position := ⟨0, ""⟩
  cases h with
  | nil => rfl
  | cons htoken hrest =>
    rw [elseOnNextLine_cons final, elseOnNextLine_cons final, htoken.isLineBreak_eq,
      (front hrest final final).kind_eq]

theorem startsStatement_eq (h : TokensAgree tokens others) :
    Recovery.startsStatement tokens = Recovery.startsStatement others := by
  cases h with
  | nil => rfl
  | cons htoken _ => rw [Recovery.startsStatement, Recovery.startsStatement, htoken.kind_eq]

/-- Recovery ends at the same place. -/
theorem skipped (h : TokensAgree tokens others) (braces parens : Nat) :
    TokensAgree (skipStatement braces parens tokens) (skipStatement braces parens others) := by
  induction h generalizing braces parens with
  | nil =>
    rw [skipStatement]
    exact .nil
  | @cons token other rest rest' htoken hrest ih =>
    have hends : Recovery.endsAt braces parens token rest =
        Recovery.endsAt braces parens other rest' := by
      rw [Recovery.endsAt, Recovery.endsAt, htoken.isLineBreak_eq, startsStatement_eq hrest]
    rw [skipStatement, skipStatement, ← hends, ← htoken.kind_eq]
    split
    · exact .cons htoken hrest
    · split
      · exact hrest
      · exact ih _ _
    · exact ih _ _
    · split
      · exact hrest
      · exact ih _ _
    · exact ih _ _
    · exact ih _ _
    · exact ih _ _

end TokensAgree

/-- A cause without the text of its token. -/
def Cause.withoutText : Cause → Cause
  | .unexpected expected found _ => .unexpected expected found ""
  | .misplaced _ message => .misplaced "" message
  | .noOperand kind => .noOperand kind
  | .illegal _ => .illegal ""
  | .malformedNumber _ => .malformedNumber ""
  | .unclosedBlock => .unclosedBlock
  | .tooDeep limit => .tooDeep limit

variable {α β : Type}

/-- Replies with values that are the same in some sense or causes that are the same but for their
texts, which leave tokens that agree. -/
inductive Reply.Alike (same : α → α → Prop) : Reply α → Reply α → Prop
  | ok {value value' : α} {rest rest' : List Token} (hvalue : same value value')
      (hrest : TokensAgree rest rest') (started : List Kind) :
      Alike same (.ok value rest started) (.ok value' rest' started)
  | fail {error error' : SyntaxError} {rest rest' : List Token}
      (hcause : error.cause.withoutText = error'.cause.withoutText)
      (hrest : TokensAgree rest rest') (started : List Kind) :
      Alike same (.fail error rest started) (.fail error' rest' started)

namespace Reply.Alike

variable {same : α → α → Prop} {same' : β → β → Prop} {reply reply' : Reply α}

theorem after (h : Alike same reply reply') (earlier : List Kind) :
    Alike same (reply.after earlier) (reply'.after earlier) := by
  cases h with
  | ok hvalue hrest started => exact .ok hvalue hrest _
  | fail hcause hrest started => exact .fail hcause hrest _

theorem map (h : Alike same reply reply') {f g : α → β}
    (hsame : ∀ {value value'}, same value value' → same' (f value) (g value')) :
    Alike same' (reply.map f) (reply'.map g) := by
  cases h with
  | ok hvalue hrest started => exact .ok (hsame hvalue) hrest _
  | fail hcause hrest started => exact .fail hcause hrest _

end Reply.Alike

namespace Parser

/-- Parsers whose replies are alike on tokens that agree. -/
def Alike (same : α → α → Prop) (parser other : Parser α) : Prop :=
  ∀ final final' {tokens tokens'}, TokensAgree tokens tokens' →
    Reply.Alike same (parser.run final tokens) (other.run final' tokens')

/-- On tokens that agree the parser gives the same value. -/
def Uniform (parser : Parser α) : Prop :=
  Alike Eq parser parser

variable {same : α → α → Prop} {same' : β → β → Prop} {parser other : Parser α}

namespace Alike

section runs

variable {final final' : Position} {tokens tokens' rest : List Token} {started : List Kind}

theorem exists_ok (h : Alike same parser other) (hagree : TokensAgree tokens tokens') {value : α}
    (hrun : parser.run final tokens = .ok value rest started) :
    ∃ value' rest', other.run final' tokens' = .ok value' rest' started ∧ same value value' ∧
      TokensAgree rest rest' := by
  have hreplies := h final final' hagree
  rw [hrun] at hreplies
  generalize other.run final' tokens' = reply at hreplies
  cases hreplies with
  | ok hvalue hrest _ => exact ⟨_, _, rfl, hvalue, hrest⟩

theorem exists_fail (h : Alike same parser other) (hagree : TokensAgree tokens tokens')
    {error : SyntaxError} (hrun : parser.run final tokens = .fail error rest started) :
    ∃ error' rest', other.run final' tokens' = .fail error' rest' started ∧
      error.cause.withoutText = error'.cause.withoutText ∧ TokensAgree rest rest' := by
  have hreplies := h final final' hagree
  rw [hrun] at hreplies
  generalize other.run final' tokens' = reply at hreplies
  cases hreplies with
  | fail hcause hrest _ => exact ⟨_, _, rfl, hcause, hrest⟩

end runs

theorem pure {value value' : α} (h : same value value') :
    Alike same (Pure.pure value) (Pure.pure value') :=
  fun _ _ _ _ hagree => .ok h hagree []

theorem fail {cause : Token → Cause}
    (h : ∀ {token other : Token}, token.Agrees other →
      (cause token).withoutText = (cause other).withoutText) :
    Alike same (Parser.fail cause) (Parser.fail cause) :=
  fun final final' _ _ hagree => .fail (h (hagree.front final final')) hagree []

theorem bind {next next' : α → Parser β} (h : Alike same parser other)
    (hnext : ∀ {value value'}, same value value' → Alike same' (next value) (next' value')) :
    Alike same' (parser >>= next) (other >>= next') := by
  intro final final' tokens tokens' hagree
  cases hrun : parser.run final tokens with
  | ok value rest started =>
    obtain ⟨value', rest', hrun', hvalue, hrest⟩ := h.exists_ok hagree hrun
    rw [run_bind_of_ok hrun, run_bind_of_ok hrun']
    exact (hnext hvalue final final' hrest).after started
  | fail error rest started =>
    obtain ⟨error', rest', hrun', hcause, hrest⟩ := h.exists_fail hagree hrun
    rw [run_bind_of_fail hrun, run_bind_of_fail hrun']
    exact .fail hcause hrest started

theorem select {choice choice' : Kind → Parser α}
    (h : ∀ kind, Alike same (choice kind) (choice' kind)) :
    Alike same (Parser.select choice) (Parser.select choice') := by
  intro final final' tokens tokens' hagree
  rw [run_select, run_select, (hagree.front final final').kind_eq]
  exact h _ final final' hagree

theorem selecting {choice choice' : Kind → Advancing α}
    (h : ∀ kind, Alike same (choice kind).toParser (choice' kind).toParser) :
    Alike same (Advancing.select choice).toParser (Advancing.select choice').toParser :=
  select h

theorem accept {meaning : Token → Option α} {cause : Token → Cause}
    (hmeaning : ∀ {token other : Token}, token.Agrees other →
      Option.Rel same (meaning token) (meaning other))
    (hcause : ∀ {token other : Token}, token.Agrees other →
      (cause token).withoutText = (cause other).withoutText) :
    Alike same (Advancing.accept meaning cause).toParser
      (Advancing.accept meaning cause).toParser := by
  intro final final' tokens tokens' hagree
  cases hagree with
  | nil => exact .fail (hcause (Token.agrees_endMarker final final')) .nil []
  | @cons token other rest rest' htoken hrest =>
    have hboth := hmeaning htoken
    generalize hvalue : meaning token = value at hboth
    generalize hvalue' : meaning other = value' at hboth
    cases hboth with
    | some hsame =>
      rw [Advancing.run_accept_of_some hvalue, Advancing.run_accept_of_some hvalue']
      exact .ok hsame hrest []
    | none =>
      rw [Advancing.run_accept_of_none hvalue, Advancing.run_accept_of_none hvalue']
      exact .fail (hcause htoken) (.cons htoken hrest) []

theorem token (kind : Kind) :
    Alike (fun token other => token.kind = kind ∧ token.Agrees other)
      (Advancing.token kind).toParser (Advancing.token kind).toParser := by
  refine accept (fun {token other} h => ?_) (fun {token other} h => ?_)
  · by_cases hkind : token.kind = kind
    · rw [if_pos hkind, if_pos (h.kind_eq ▸ hkind)]
      exact .some ⟨hkind, h⟩
    · rw [if_neg hkind, if_neg (h.kind_eq ▸ hkind)]
      exact .none
  · unfold Advancing.notExpected
    rw [h.kind_eq]
    split <;> rfl

end Alike

/-- The item that is read in front of a kind is alike to itself, or the stop is. -/
inductive Turn.Alike (same : α → α → Prop) : Turn α → Prop
  | more {item : Advancing α} (h : Parser.Alike same item.toParser item.toParser) :
      Alike same (.more item)
  | stop {last : Parser Unit} (h : last.Uniform) : Alike same (.stop last)

theorem Alike.many {turn : Kind → Turn α} (h : ∀ kind, Turn.Alike same (turn kind)) :
    Alike (List.Forall₂ same) (Parser.many turn) (Parser.many turn) := by
  intro final final' tokens tokens' hagree
  change Reply.Alike _ (runMany turn final tokens) (runMany turn final' tokens')
  -- Both runs take the same turn.
  have hsame : ∀ {tokens tokens' next}, TokensAgree tokens tokens' →
      turn (frontToken final tokens).kind = next →
        turn (frontToken final' tokens').kind = next ∧ Turn.Alike same next := by
    rintro tokens tokens' next hagree rfl
    rw [(hagree.front final final').kind_eq]
    exact ⟨rfl, h _⟩
  fun_induction runMany turn final tokens generalizing tokens' with
  | case1 tokens last hturn =>
    obtain ⟨hturn', hboth⟩ := hsame hagree hturn
    rw [runMany_of_stop hturn']
    cases hboth with
    | stop hlast => exact (hlast final final' hagree).map fun _ => .nil
  | case2 tokens item hturn value rest started hrun ih =>
    obtain ⟨hturn', hboth⟩ := hsame hagree hturn
    cases hboth with
    | more hitem =>
      obtain ⟨value', rest', hrun', hvalue, hrest⟩ := hitem.exists_ok hagree hrun
      rw [runMany_of_ok hturn' hrun']
      exact ((ih hrest).map fun hvalues => .cons hvalue hvalues).after started
  | case3 tokens item hturn error rest started hrun =>
    obtain ⟨hturn', hboth⟩ := hsame hagree hturn
    cases hboth with
    | more hitem =>
      obtain ⟨error', rest', hrun', hcause, hrest⟩ := hitem.exists_fail hagree hrun
      rw [runMany_of_fail hturn' hrun']
      exact .fail hcause hrest started

namespace Uniform

theorem pure (value : α) : (Pure.pure value : Parser α).Uniform :=
  Alike.pure rfl

theorem bind {next : α → Parser β} (h : parser.Uniform) (hnext : ∀ value, (next value).Uniform) :
    (parser >>= next).Uniform :=
  Alike.bind h fun hvalue => hvalue ▸ hnext _

theorem bind_pure (h : parser.Uniform) (f : α → β) :
    (parser >>= fun value => Pure.pure (f value)).Uniform :=
  h.bind fun value => pure (f value)

theorem select {choice : Kind → Parser α} (h : ∀ kind, (choice kind).Uniform) :
    (Parser.select choice).Uniform :=
  Alike.select h

theorem fail {cause : Token → Cause}
    (h : ∀ {token other : Token}, token.Agrees other →
      (cause token).withoutText = (cause other).withoutText) :
    (Parser.fail cause : Parser α).Uniform :=
  Alike.fail h

/-- A token of which only the kind matters. -/
theorem token_bind (kind : Kind) {next : Parser α} (h : next.Uniform) :
    ((Advancing.token kind).toParser >>= fun _ => next).Uniform :=
  (Alike.token kind).bind fun _ => h

theorem skip (kind : Kind) : (Advancing.skip kind).Uniform :=
  token_bind kind (pure ())

/-- A name, of which the text matters as well. -/
theorem name_bind {next : Token → Parser α}
    (h : ∀ {name name' : Token}, name.text = name'.text → Alike Eq (next name) (next name')) :
    ((Advancing.token .identifier).toParser >>= next).Uniform := by
  refine (Alike.token .identifier).bind ?_
  rintro name name' ⟨hkind, hagree⟩
  exact h (hagree.text_eq (by rw [hkind]; rfl))

theorem accept {meaning : Token → Option α} {cause : Token → Cause}
    (hmeaning : ∀ {token other : Token}, token.Agrees other → meaning token = meaning other)
    (hcause : ∀ {token other : Token}, token.Agrees other →
      (cause token).withoutText = (cause other).withoutText) :
    (Advancing.accept meaning cause).toParser.Uniform := by
  refine Alike.accept (fun {token other} h => ?_) hcause
  rw [hmeaning h]
  cases meaning other with
  | none => exact .none
  | some value => exact .some rfl

theorem skipLineBreakBefore : (Parser.skipLineBreakBefore .elseWord).Uniform := by
  intro final final' tokens tokens' hagree
  rw [run_skipLineBreakBefore, run_skipLineBreakBefore, hagree.elseOnNextLine_eq]
  refine .ok rfl ?_ []
  split
  · exact hagree.tail
  · exact hagree

theorem starting {parser : Advancing α} (kind : Kind) (h : parser.toParser.Uniform) :
    (Advancing.starting kind parser).toParser.Uniform :=
  fun final final' _ _ hagree => (h final final' hagree).after [kind]

theorem many {turn : Kind → Turn α} (h : ∀ kind, Turn.Alike Eq (turn kind)) :
    (Parser.many turn).Uniform := by
  have hmany := Alike.many h
  rwa [List.forall₂_eq_eq_eq] at hmany

end Uniform

end Parser

open ShellFrontend.Parser (Alike Uniform)

/-- A layer whose parsers give the same values on tokens that agree. -/
structure Layer.Uniform (layer : Layer) : Prop where
  expr : ∀ floor, (layer.expr floor).toParser.Uniform
  block : layer.block.toParser.Uniform

theorem commaList_alike {same : α → α → Prop} {item : Advancing α} (what : String)
    (h : Alike same item.toParser item.toParser) :
    Alike (List.Forall₂ same) (commaList what item).toParser (commaList what item).toParser := by
  have hmany : Alike (List.Forall₂ same) (Parser.many (CommaList.turn what item))
      (Parser.many (CommaList.turn what item)) := by
    refine .many fun kind => ?_
    unfold CommaList.turn
    split
    · refine .more ((Alike.token .comma).bind fun _ => .select fun kind => ?_)
      split
      · exact .fail fun _ => rfl
      · exact h
    · exact .stop (.skip .closeParen)
  refine (Alike.token .openParen).bind fun _ => .select fun kind => ?_
  split
  · exact Alike.bind (Uniform.skip .closeParen) fun _ => .pure .nil
  · exact h.bind fun hfirst => hmany.bind fun hothers => .pure (.cons hfirst hothers)

namespace Operand

variable {layer : Layer}

theorem literal?_congr {token other : Token} (h : token.Agrees other) :
    literal? token = literal? other := by
  unfold literal?
  rw [← h.kind_eq]
  by_cases htext : token.kind.carriesText
  · rw [h.text_eq htext]
  · split <;> simp_all [Kind.carriesText]

theorem arguments_uniform (h : layer.Uniform) (what : String) :
    (commaList what (layer.expr .lowest)).toParser.Uniform := by
  have hlist := commaList_alike what (h.expr .lowest)
  rwa [List.forall₂_eq_eq_eq] at hlist

theorem alternative_uniform (h : layer.Uniform) : (alternative layer).Uniform := by
  refine Uniform.skipLineBreakBefore.bind fun _ => .select fun kind => ?_
  split
  · exact (Uniform.skip .elseWord).bind fun _ => h.block.bind_pure _
  · exact .pure none

/-- Parameters are read as tokens, but only their texts go into the tree. -/
theorem function_uniform (h : layer.Uniform) : (function layer).toParser.Uniform := by
  refine .token_bind .fnWord ?_
  refine (commaList_alike "parameter list" (Alike.token .identifier)).bind ?_
  intro parameters parameters' hparameters
  have hnames : parameters.map (·.text) = parameters'.map (·.text) := by
    induction hparameters with
    | nil => rfl
    | cons hname _ ih =>
      obtain ⟨hkind, hagree⟩ := hname
      rw [List.map_cons, List.map_cons, ih, hagree.text_eq (by rw [hkind]; rfl)]
  rw [hnames]
  exact h.block.bind_pure _

theorem rule_uniform (h : layer.Uniform) (rule : OperandRule) :
    (rule.parser layer).toParser.Uniform := by
  cases rule with
  | literal =>
    refine .accept literal?_congr fun {token other} hagree => ?_
    unfold notLiteral
    rw [hagree.kind_eq]
    split <;> rfl
  | identifier =>
    refine .name_bind fun {name name'} hname => .select fun kind => ?_
    rw [hname]
    split
    · exact (arguments_uniform h _).bind_pure _
    · exact .pure rfl
  | unary =>
    have hsign := @Uniform.accept _ (fun token => UnaryOperator.ofKind? token.kind)
      (fun token => .noOperand token.kind) (fun hagree => by rw [hagree.kind_eq])
      (fun hagree => by rw [hagree.kind_eq])
    exact hsign.bind fun _ => (h.expr _).bind_pure _
  | grouping =>
    exact .token_bind .openParen ((h.expr _).bind fun _ => (Uniform.skip .closeParen).bind_pure _)
  | conditional =>
    have hopening : Alike (fun _ _ => True) conditionOpening.toParser conditionOpening.toParser := by
      refine .accept (fun {token other} hagree => ?_) fun _ => rfl
      rw [hagree.kind_eq]
      split
      · exact .some trivial
      · exact .none
    exact .token_bind .ifWord (hopening.bind fun _ => (h.expr _).bind fun _ =>
      (Uniform.skip .closeParen).bind fun _ => h.block.bind fun _ =>
      (alternative_uniform h).bind_pure _)
  | function => exact function_uniform h

end Operand

variable {layer : Layer} (rules : Rules)

theorem operand_uniform (h : layer.Uniform) : (operand rules layer).toParser.Uniform := by
  refine Alike.selecting fun kind => ?_
  split
  · exact Operand.rule_uniform h _
  · refine .fail fun {token other} hagree => ?_
    unfold Operand.notOperand
    rw [hagree.kind_eq]
    split <;> rfl

theorem operation_uniform (h : layer.Uniform) (power : Power) :
    (Expression.operation layer power).toParser.Uniform := by
  have hsign := @Uniform.accept _ (fun token => BinaryOperator.ofKind? token.kind)
    (fun token => .misplaced token.text "expected an infix operator")
    (fun hagree => by rw [hagree.kind_eq]) fun _ => rfl
  exact hsign.bind fun _ => (h.expr power).bind_pure _

theorem expression_uniform (h : layer.Uniform) (floor : Power) :
    (expression rules layer floor).toParser.Uniform := by
  have hmany : (Parser.many (Expression.turn rules layer floor)).Uniform := by
    refine .many fun kind => ?_
    unfold Expression.turn
    split
    · split
      · exact .more (operation_uniform h _)
      · exact .stop (.pure ())
    · exact .stop (.pure ())
  exact (operand_uniform rules h).bind fun _ => hmany.bind_pure _

namespace Statement

theorem ending_uniform : ending.Uniform := by
  refine .select fun kind => ?_
  split
  · exact .skip .terminator
  · exact .pure ()
  · exact .pure ()
  · exact .fail fun _ => rfl
  · exact .fail fun _ => rfl

theorem rule_uniform (h : layer.Uniform) (rule : StatementRule) :
    (rule.parser layer).toParser.Uniform := by
  cases rule with
  | binding =>
    refine .token_bind .letWord (.name_bind fun {name name'} hname => ?_)
    rw [hname]
    exact (Uniform.skip .assign).bind fun _ => (h.expr _).bind fun _ => ending_uniform.bind_pure _
  | result =>
    exact .token_bind .returnWord ((h.expr _).bind fun _ => ending_uniform.bind_pure _)
  | block => exact h.block.bind_pure _

end Statement

theorem statement_uniform (h : layer.Uniform) : (statement rules layer).toParser.Uniform := by
  refine Alike.selecting fun kind => Uniform.starting kind ?_
  split
  · exact Statement.rule_uniform h _
  · exact (h.expr _).bind fun _ => Statement.ending_uniform.bind_pure _

theorem bracedBlock_uniform (h : layer.Uniform) : (bracedBlock rules layer).toParser.Uniform := by
  have hmany : (Parser.many (Block.turn rules layer)).Uniform := by
    refine .many fun kind => ?_
    unfold Block.turn
    split
    · exact .stop (.skip .closeBrace)
    · exact .stop (.fail fun _ => rfl)
    · exact .more (Uniform.token_bind .terminator (.pure none))
    · exact .more ((statement_uniform rules h).bind_pure _)
  exact .token_bind .openBrace (hmany.bind_pure _)

theorem Layer.ofLevels_uniform (levels : Nat) : (Layer.ofLevels rules levels).Uniform := by
  have hclosed : ∀ α, (Parser.fail fun _ => .tooDeep nestingLimit : Parser α).Uniform :=
    fun _ => .fail fun _ => rfl
  induction levels with
  | zero => exact ⟨fun _ => hclosed _, hclosed _⟩
  | succ levels ih => exact ⟨expression_uniform rules ih, bracedBlock_uniform rules ih⟩

section errors

variable {final final' : Position} {tokens tokens' rest rest' : List Token}

/-- Errors with the same cause but for its text, each of which blames the token at the same index
of its list, or the end of the list. -/
def SyntaxError.Corresponds (final final' : Position) (tokens tokens' : List Token)
    (error error' : SyntaxError) : Prop :=
  error.cause.withoutText = error'.cause.withoutText ∧
    ∃ index, error.Blames (tokens.getD index (.endMarker final)) ∧
      error'.Blames (tokens'.getD index (.endMarker final'))

theorem SyntaxError.Corresponds.of_front {error error' : SyntaxError}
    (hcause : error.cause.withoutText = error'.cause.withoutText)
    (hblames : error.Blames (frontToken final rest))
    (hblames' : error'.Blames (frontToken final' rest')) :
    error.Corresponds final final' rest rest' error' := by
  have hzero : ∀ final (tokens : List Token),
      tokens.getD 0 (.endMarker final) = frontToken final tokens := by
    intro final tokens
    cases tokens <;> rfl
  exact ⟨hcause, 0, hzero final rest ▸ hblames, hzero final' rest' ▸ hblames'⟩

theorem SyntaxError.Corresponds.of_suffix {error error' : SyntaxError}
    (h : error.Corresponds final final' rest rest' error') (hrest : rest <:+ tokens)
    (hrest' : rest' <:+ tokens') (hagree : TokensAgree rest rest')
    (hagree' : TokensAgree tokens tokens') :
    error.Corresponds final final' tokens tokens' error' := by
  obtain ⟨read, rfl⟩ := hrest
  obtain ⟨read', rfl⟩ := hrest'
  have hlength : read.length = read'.length := by
    have hlengths := hagree'.length_eq
    rw [List.length_append, List.length_append, hagree.length_eq] at hlengths
    exact Nat.add_right_cancel hlengths
  obtain ⟨hcause, index, hblames, hblames'⟩ := h
  refine ⟨hcause, read.length + index, ?_, ?_⟩
  · rwa [List.getD_append_right _ _ _ _ (Nat.le_add_right _ _), Nat.add_sub_cancel_left]
  · rw [hlength]
    rwa [List.getD_append_right _ _ _ _ (Nat.le_add_right _ _), Nat.add_sub_cancel_left]

/-- The same segments are parsed and skipped in both lists. -/
theorem results_alike (levels : Nat) (hagree : TokensAgree tokens tokens') :
    let stmt := statement rules (.ofLevels rules levels)
    let results := Piece.results (pieces stmt final tokens)
    let results' := Piece.results (pieces stmt final' tokens')
    results.1 = results'.1 ∧
      List.Forall₂ (SyntaxError.Corresponds final final' tokens tokens') results.2 results'.2 := by
  intro stmt
  dsimp only
  have hstmt : stmt.toParser.Uniform := statement_uniform rules (Layer.ofLevels_uniform rules levels)
  have hblames : ∀ {final tokens error rest started},
      stmt.run final tokens = .fail error rest started → error.Blames (frontToken final rest) :=
    statement_fail_blames rules
  clear_value stmt
  fun_induction pieces stmt final tokens generalizing tokens' with
  | case1 =>
    cases hagree
    rw [pieces_nil]
    exact ⟨rfl, .nil⟩
  | case2 token rest hend =>
    cases hagree with
    | cons htoken _ =>
      rw [pieces_of_endOfInput (htoken.kind_eq ▸ hend)]
      exact ⟨rfl, .nil⟩
  | case3 token rest hend hstop ih =>
    cases hagree with
    | @cons _ token' _ rest' htoken hrest =>
      obtain ⟨hstmts, herrors⟩ := ih hrest
      rw [results_of_terminator (htoken.kind_eq ▸ hstop)]
      refine ⟨hstmts, herrors.imp fun error error' h => ?_⟩
      exact h.of_suffix (List.suffix_cons _ _) (List.suffix_cons _ _) hrest (.cons htoken hrest)
  | case4 token rest hend hstop value left started hrun ih =>
    obtain ⟨value', left', hrun', rfl, hleft⟩ := hstmt.exists_ok hagree hrun
    obtain ⟨hstmts, herrors⟩ := ih hleft
    cases hagree with
    | @cons _ token' _ rest' htoken hrest =>
      have hfirst : token'.kind.startsPiece :=
        htoken.kind_eq ▸ Kind.startsPiece_of_ne hend hstop
      rw [results_of_ok hfirst hrun']
      refine ⟨congrArg (List.cons value) hstmts, herrors.imp fun error error' h => ?_⟩
      exact h.of_suffix (Parser.suffix_of_run hrun) (Parser.suffix_of_run hrun') hleft
        (.cons htoken hrest)
  | case5 token rest hend hstop error failed started hrun left =>
    rename_i ih
    obtain ⟨error', failed', hrun', hcause, hfailed⟩ := hstmt.exists_fail hagree hrun
    have hleft := hagree.skipped 0 0
    obtain ⟨hstmts, herrors⟩ := ih hleft
    have hcorresponds : error.Corresponds final final' failed failed' error' :=
      .of_front hcause (hblames hrun) (hblames hrun')
    cases hagree with
    | @cons _ token' _ rest' htoken hrest =>
      have hfirst : token'.kind.startsPiece :=
        htoken.kind_eq ▸ Kind.startsPiece_of_ne hend hstop
      rw [results_of_fail hfirst hrun' rfl]
      refine ⟨hstmts, .cons ?_ (herrors.imp fun error error' h => ?_)⟩
      · exact hcorresponds.of_suffix (Parser.suffix_of_run hrun) (Parser.suffix_of_run hrun')
          hfailed (.cons htoken hrest)
      · exact h.of_suffix (skipStatement_suffix _ _ _) (skipStatement_suffix _ _ _) hleft
          (.cons htoken hrest)

end errors

/-- Where tokens stand, and how those are written that no tree carries, makes no difference to the
program and none to the errors but for the positions and texts that they take from their tokens. -/
theorem parse_alike {tokens tokens' : List Token} (h : TokensAgree tokens tokens')
    (file file' : String) :
    (parse tokens file).program = (parse tokens' file').program ∧
      List.Forall₂
        (SyntaxError.Corresponds (endPosition tokens file) (endPosition tokens' file') tokens tokens')
        (parse tokens file).errors (parse tokens' file').errors := by
  obtain ⟨hstmts, herrors⟩ := results_alike .standard nestingLimit h
  exact ⟨congrArg Program.mk hstmts, herrors⟩

/-- A statement and an error are found in the same tokens, also when all of them stand at one place
of another file and their fixed texts are gone. -/
theorem parse_alike_of_moved_tokens :
    let tokens := tokenize "let x = 1\n)" "shell"
    let place : Position := ⟨7, "other"⟩
    let moved := tokens.map fun token => Token.mk token.kind
      (if token.kind.carriesText || token.isLineBreak then token.text else "?") ⟨place, place⟩
    TokensAgree tokens moved ∧ (parse tokens "shell").program.statements.length = 1 ∧
      (parse tokens "shell").program = (parse moved "other").program ∧
      (parse tokens "shell").errors = [⟨.noOperand .closeParen, ⟨10, "shell"⟩⟩] ∧
      (parse moved "other").errors = [⟨.noOperand .closeParen, place⟩] ∧
      List.Forall₂ (SyntaxError.Corresponds (endPosition tokens "shell") (endPosition moved "other")
        tokens moved) (parse tokens "shell").errors (parse moved "other").errors := by
  intro tokens place moved
  have hagree : TokensAgree tokens moved := by decide +kernel
  have hparsed : (parse tokens "shell").program.statements.length = 1 ∧
      (parse tokens "shell").errors = [⟨.noOperand .closeParen, ⟨10, "shell"⟩⟩] ∧
      (parse moved "other").errors = [⟨.noOperand .closeParen, place⟩] := by decide +kernel
  obtain ⟨hprogram, herrors⟩ := parse_alike hagree "shell" "other"
  exact ⟨hagree, hparsed.1, hprogram, hparsed.2.1, hparsed.2.2, herrors⟩

end ShellFrontend
