import ShellFrontend.Proofs.ParsedTrees
import ShellFrontend.Proofs.Segmentation

/-! # What errors say of their tokens

An error stands at the token that the parser did not take, and its cause is one that this token
gives: the kinds and texts that it names are those of the token. This holds of all parsers of the
grammar, under any rules. Of a scanned number it follows that only its size is ever refused.
-/

set_option autoImplicit false

namespace ShellFrontend

/-- What a cause says of the token that gives it. -/
def Cause.Describes : Cause → Token → Prop
  | .unexpected expected found text, token =>
    expected ≠ token.kind ∧ token.kind ≠ .illegal ∧ found = token.kind ∧ text = token.text
  | .misplaced text _, token => text = token.text
  | .noOperand kind, token => kind = token.kind
  | .illegal text, token => token.kind = .illegal ∧ text = token.text
  | .malformedNumber text, token =>
    token.kind = .number ∧ Operand.literal? token = none ∧ text = token.text
  | .unclosedBlock, token => token.kind = .endOfInput
  | .tooDeep limit, _ => limit = nestingLimit

/-- An error stands at a token, and its cause describes the token. -/
structure SyntaxError.Blames (error : SyntaxError) (token : Token) : Prop where
  position_eq : error.position = token.span.start
  describes : error.cause.Describes token

namespace Parser

variable {α β : Type}

/-- In front of a token of this kind a parser fails only with causes that describe the first token
of what it leaves. -/
def ExplainsAt (kind : Kind) (parser : Parser α) : Prop :=
  ∀ ⦃final tokens error rest started⦄, (frontToken final tokens).kind = kind →
    parser.run final tokens = .fail error rest started →
    error.cause.Describes (frontToken final rest)

def Explains (parser : Parser α) : Prop :=
  ∀ kind, parser.ExplainsAt kind

namespace ExplainsAt

variable {kind : Kind}

theorem pure (value : α) : (Pure.pure value : Parser α).ExplainsAt kind := by
  intro final tokens error rest started _ hrun
  cases hrun

theorem fail {cause : Token → Cause}
    (h : ∀ ⦃token : Token⦄, token.kind = kind → (cause token).Describes token) :
    (Parser.fail cause : Parser α).ExplainsAt kind := by
  intro final tokens error rest started hkind hrun
  cases hrun
  exact h hkind

theorem bind {parser : Parser α} {next : α → Parser β} (h : parser.ExplainsAt kind)
    (hnext : ∀ value, (next value).Explains) : (parser >>= next).ExplainsAt kind := by
  intro final tokens error rest started hkind hrun
  cases hfirst : parser.run final tokens with
  | fail error₁ rest₁ started₁ =>
    rw [run_bind_of_fail hfirst] at hrun
    cases hrun
    exact h hkind hfirst
  | ok value middle earlier =>
    rw [run_bind_of_ok hfirst] at hrun
    cases hsecond : (next value).run final middle with
    | ok value₁ rest₁ later =>
      rw [hsecond] at hrun
      cases hrun
    | fail error₁ rest₁ later =>
      rw [hsecond] at hrun
      cases hrun
      exact hnext value _ rfl hsecond

theorem bind_pure {parser : Parser α} (h : parser.ExplainsAt kind) (f : α → β) :
    (parser >>= fun value => Pure.pure (f value)).ExplainsAt kind :=
  h.bind fun value _ => pure (f value)

theorem accept {meaning : Token → Option α} {cause : Token → Cause}
    (hend : ∀ {position}, meaning (.endMarker position) = none)
    (h : ∀ ⦃token⦄, meaning token = none → (cause token).Describes token) :
    (Advancing.accept meaning cause).ExplainsAt kind := by
  intro final tokens error rest started _ hrun
  cases tokens with
  | nil =>
    cases hrun
    exact h hend
  | cons token tail =>
    cases hmeaning : meaning token with
    | none =>
      rw [Advancing.run_accept_of_none hmeaning] at hrun
      cases hrun
      exact h hmeaning
    | some value =>
      rw [Advancing.run_accept_of_some hmeaning] at hrun
      cases hrun

end ExplainsAt

namespace Explains

theorem select {choice : Kind → Parser α} (h : ∀ kind, (choice kind).ExplainsAt kind) :
    (Parser.select choice).Explains := by
  rintro kind final tokens error rest started rfl hrun
  exact h _ rfl hrun

theorem selecting {choice : Kind → Advancing α}
    (h : ∀ kind, (choice kind).toParser.ExplainsAt kind) :
    (Advancing.select choice).toParser.Explains :=
  select h

theorem token {expected : Kind} (hne : expected ≠ .endOfInput) :
    (Advancing.token expected).toParser.Explains := by
  intro kind
  refine .accept (if_neg hne.symm) fun token hnone => ?_
  have hkind : token.kind ≠ expected := by
    intro heq
    rw [if_pos heq] at hnone
    cases hnone
  unfold Advancing.notExpected
  split
  · exact ⟨‹_›, rfl⟩
  · exact ⟨hkind.symm, ‹_›, rfl, rfl⟩

theorem skip {expected : Kind} (hne : expected ≠ .endOfInput) :
    (Advancing.skip expected).Explains :=
  fun kind => (token hne kind).bind_pure _

theorem skipLineBreakBefore : (Parser.skipLineBreakBefore .elseWord).Explains := by
  intro kind final tokens error rest started _ hrun
  rw [run_skipLineBreakBefore] at hrun
  cases hrun

end Explains

theorem ExplainsAt.starting {parser : Advancing α} {kind : Kind} (kind' : Kind)
    (h : parser.toParser.ExplainsAt kind) :
    (Advancing.starting kind' parser).toParser.ExplainsAt kind := by
  intro final tokens error rest started hkind hrun
  obtain ⟨later, hlater, -⟩ := Advancing.run_starting_eq_fail_iff.1 hrun
  exact h hkind hlater

/-- The item that is read in front of a kind, or the stop, explains itself there. -/
inductive Turn.ExplainsAt (kind : Kind) : Turn α → Prop
  | more {item : Advancing α} (h : item.toParser.ExplainsAt kind) : ExplainsAt kind (.more item)
  | stop {last : Parser Unit} (h : last.ExplainsAt kind) : ExplainsAt kind (.stop last)

theorem Explains.many {turn : Kind → Turn α} (h : ∀ kind, Turn.ExplainsAt kind (turn kind)) :
    (Parser.many turn).Explains := by
  rintro kind final tokens error rest started - hrun
  change runMany turn final tokens = _ at hrun
  fun_induction runMany turn final tokens generalizing started with
  | case1 tokens last hturn =>
    have hstop := h (frontToken final tokens).kind
    rw [hturn] at hstop
    cases hlast : last.run final tokens with
    | ok value rest' started' =>
      rw [hlast] at hrun
      cases hrun
    | fail error' rest' started' =>
      rw [hlast] at hrun
      cases hrun
      cases hstop with
      | stop hexplains => exact hexplains rfl hlast
  | case2 tokens item hturn value middle earlier hitem ih =>
    cases hothers : runMany turn final middle with
    | ok values rest' later =>
      rw [hothers] at hrun
      cases hrun
    | fail error' rest' later =>
      rw [hothers] at hrun
      cases hrun
      exact ih hothers
  | case3 tokens item hturn error' rest' started' hitem =>
    have hmore := h (frontToken final tokens).kind
    rw [hturn] at hmore
    cases hrun
    cases hmore with
    | more hexplains => exact hexplains rfl hitem

end Parser

open ShellFrontend.Parser (ExplainsAt Explains)

/-- A layer whose parsers explain their errors. -/
structure Layer.Explains (layer : Layer) : Prop where
  expr : ∀ floor, (layer.expr floor).toParser.Explains
  block : layer.block.toParser.Explains

theorem commaList_explains {α : Type} {item : Advancing α} (what : String)
    (h : item.toParser.Explains) : (commaList what item).toParser.Explains := by
  have hskip : (Advancing.skip .closeParen).Explains := .skip (by decide)
  have hmany : (Parser.many (CommaList.turn what item)).Explains := by
    refine .many fun kind => ?_
    unfold CommaList.turn
    split
    · refine .more ((Explains.token (by decide) _).bind fun _ => .select fun kind => ?_)
      split
      · exact .fail fun token _ => rfl
      · exact h _
    · exact .stop (hskip _)
  intro kind
  refine (Explains.token (by decide) kind).bind fun _ => .select fun kind => ?_
  split
  · exact (hskip _).bind_pure _
  · exact (h _).bind fun _ kind => (hmany kind).bind_pure _

namespace Operand

variable {layer : Layer}

theorem notLiteral_describes {token : Token} (h : literal? token = none) :
    (notLiteral token).Describes token := by
  unfold notLiteral
  split
  · exact ⟨‹_›, h, rfl⟩
  · rfl

theorem notOperand_describes (token : Token) : (notOperand token).Describes token := by
  unfold notOperand
  split
  · exact ⟨‹_›, rfl⟩
  · rfl

theorem alternative_explains (h : layer.Explains) : (alternative layer).Explains := by
  intro kind
  refine (Explains.skipLineBreakBefore kind).bind fun _ => .select fun kind => ?_
  split
  · exact (Explains.skip (by decide) _).bind fun _ kind => (h.block kind).bind_pure _
  · exact .pure _

theorem rule_explains (h : layer.Explains) (rule : OperandRule) :
    (rule.parser layer).toParser.Explains := by
  intro kind
  cases rule with
  | literal => exact .accept rfl fun token => notLiteral_describes
  | identifier =>
    refine (Explains.token (by decide) kind).bind fun _ => .select fun kind => ?_
    split
    · exact (commaList_explains _ (h.expr _) _).bind_pure _
    · exact .pure _
  | unary =>
    have hsign := @ExplainsAt.accept _ kind (fun token => UnaryOperator.ofKind? token.kind)
      (fun token => .noOperand token.kind) rfl fun _ _ => rfl
    exact hsign.bind fun _ kind => (h.expr _ kind).bind_pure _
  | grouping =>
    exact (Explains.token (by decide) kind).bind fun _ kind => (h.expr _ kind).bind fun _ kind =>
      (Explains.skip (by decide) kind).bind_pure _
  | conditional =>
    have hopening : conditionOpening.toParser.Explains := fun _ => .accept rfl fun _ _ => rfl
    exact (Explains.token (by decide) kind).bind fun _ kind => (hopening kind).bind fun _ kind =>
      (h.expr _ kind).bind fun _ kind => (Explains.skip (by decide) kind).bind fun _ kind =>
      (h.block kind).bind fun _ kind => (alternative_explains h kind).bind_pure _
  | function =>
    have hname : (Advancing.token .identifier).toParser.Explains := .token (by decide)
    have hnames := commaList_explains "parameter list" hname
    exact (Explains.token (by decide) kind).bind fun _ kind => (hnames kind).bind fun _ kind =>
      (h.block kind).bind_pure _

end Operand

variable {layer : Layer} (rules : Rules)

theorem operand_explains (h : layer.Explains) : (operand rules layer).toParser.Explains := by
  refine .selecting fun kind => ?_
  split
  · exact Operand.rule_explains h _ kind
  · exact .fail fun token _ => Operand.notOperand_describes token

theorem operation_explains (h : layer.Explains) (power : Power) :
    (Expression.operation layer power).toParser.Explains := by
  intro kind
  have hsign := @ExplainsAt.accept _ kind (fun token => BinaryOperator.ofKind? token.kind)
    (fun token => .misplaced token.text "expected an infix operator") rfl fun _ _ => rfl
  exact hsign.bind fun _ kind => (h.expr power kind).bind_pure _

theorem expression_explains (h : layer.Explains) (floor : Power) :
    (expression rules layer floor).toParser.Explains := by
  have hmany : (Parser.many (Expression.turn rules layer floor)).Explains := by
    refine .many fun kind => ?_
    unfold Expression.turn
    split
    · split
      · exact .more (operation_explains h _ kind)
      · exact .stop (.pure _)
    · exact .stop (.pure _)
  exact fun kind => (operand_explains rules h kind).bind fun _ kind => (hmany kind).bind_pure _

namespace Statement

theorem ending_explains : ending.Explains := by
  refine .select fun kind => ?_
  split
  · exact Explains.skip (by decide) _
  · exact .pure _
  · exact .pure _
  · exact .fail fun token hkind => ⟨hkind, rfl⟩
  · exact .fail fun token _ => rfl

theorem rule_explains (h : layer.Explains) (rule : StatementRule) :
    (rule.parser layer).toParser.Explains := by
  intro kind
  cases rule with
  | binding =>
    exact (Explains.token (by decide) kind).bind fun _ kind =>
      (Explains.token (by decide) kind).bind fun _ kind =>
      (Explains.skip (by decide) kind).bind fun _ kind => (h.expr _ kind).bind fun _ kind =>
      (ending_explains kind).bind_pure _
  | result =>
    exact (Explains.token (by decide) kind).bind fun _ kind => (h.expr _ kind).bind fun _ kind =>
      (ending_explains kind).bind_pure _
  | block => exact (h.block kind).bind_pure _

end Statement

theorem statement_explains (h : layer.Explains) : (statement rules layer).toParser.Explains := by
  refine .selecting fun kind => .starting kind ?_
  split
  · exact Statement.rule_explains h _ kind
  · exact (h.expr _ kind).bind fun _ kind => (Statement.ending_explains kind).bind_pure _

theorem bracedBlock_explains (h : layer.Explains) :
    (bracedBlock rules layer).toParser.Explains := by
  have hmany : (Parser.many (Block.turn rules layer)).Explains := by
    refine .many fun kind => ?_
    unfold Block.turn
    split
    · exact .stop (Explains.skip (by decide) _)
    · exact .stop (.fail fun token hkind => hkind)
    · exact .more ((Explains.token (by decide) _).bind_pure _)
    · exact .more ((statement_explains rules h kind).bind_pure _)
  exact fun kind => (Explains.token (by decide) kind).bind fun _ kind => (hmany kind).bind_pure _

theorem Layer.ofLevels_explains (levels : Nat) : (Layer.ofLevels rules levels).Explains := by
  have hclosed : ∀ α, (Parser.fail fun _ => .tooDeep nestingLimit : Parser α).Explains :=
    fun _ _ => .fail fun token _ => rfl
  induction levels with
  | zero => exact ⟨fun _ => hclosed _, hclosed _⟩
  | succ levels ih => exact ⟨expression_explains rules ih, bracedBlock_explains rules ih⟩

/-- A statement that fails blames the first token of what it leaves. -/
theorem statement_fail_blames {levels : Nat} {final : Position} {tokens rest : List Token}
    {error : SyntaxError} {started : List Kind}
    (hrun : (statement rules (.ofLevels rules levels)).run final tokens = .fail error rest started) :
    error.Blames (frontToken final rest) := by
  have hreads := statement_readsStatement rules (Layer.ofLevels_reads rules levels) 0 0
  have hexplains := statement_explains rules (Layer.ofLevels_explains rules levels)
  exact ⟨(hreads.fail hrun).1, hexplains _ rfl hrun⟩

/-- An error of a program blames one of its tokens, or the end. -/
theorem exists_blames_of_mem_errors {tokens : List Token} {file : String} {error : SyntaxError}
    (h : error ∈ (parse tokens file).errors) :
    ∃ token, (token ∈ tokens ∨ token = .endMarker (endPosition tokens file)) ∧
      error.Blames token := by
  obtain ⟨start, rest, started, hstart, hrun⟩ := exists_fail_of_mem_errors h
  refine ⟨_, ?_, statement_fail_blames .standard hrun⟩
  have hrest : rest <:+ start := Parser.suffix_of_run hrun
  cases rest with
  | nil => exact .inr rfl
  | cons token rest => exact .inl ((hrest.trans hstart).mem List.mem_cons_self)

/-- A scanned number is no literal only if it is too large. -/
theorem Operand.infinite_of_literal?_eq_none {token : Token} (hkind : token.kind = .number)
    (hpositional : IsPositional token.text.toList) (h : literal? token = none) :
    ∃ value, Binary64.ofText? token.text.toList = some value ∧ value.negative = false ∧
      value.magnitude = Binary64.infinite := by
  obtain ⟨decimal, hdecimal⟩ : ∃ decimal, Decimal.ofText? token.text.toList = some decimal := by
    generalize token.text.toList = text at hpositional
    cases hpositional with
    | whole hne hdigits => exact ⟨_, Decimal.ofText?_whole hne hdigits⟩
    | fraction hne hdigits _ hmore => exact ⟨_, Decimal.ofText?_fraction hne hdigits hmore⟩
  have hvalue : Binary64.ofText? token.text.toList = some (decimal.toBinary64 false) := by
    rw [Binary64.ofText?, Binary64.sign_of_isPositional hpositional]
    simp only [hdecimal, Option.map_some]
  refine ⟨_, hvalue, rfl, Nat.le_antisymm decimal.magnitude_le_infinite ?_⟩
  have hinfinite : (decimal.toBinary64 false).isFinite = false := by
    simpa [literal?, hkind, hvalue] using h
  exact Nat.not_lt.1 (of_decide_eq_false hinfinite)

/-- Whatever the source, its trees are well-formed, and a number is refused only for its size. -/
theorem parse_of_source (source file file' : String) :
    (parse (tokenize source file) file').program.isWellFormed ∧
      ∀ error ∈ (parse (tokenize source file) file').errors,
        ∀ text, error.cause = .malformedNumber text →
          ∃ token ∈ tokenize source file, token.kind = .number ∧ token.text = text ∧
            error.position = token.span.start ∧ IsPositional text.toList ∧
            ∃ value, Binary64.ofText? text.toList = some value ∧ value.negative = false ∧
              value.magnitude = Binary64.infinite := by
  refine ⟨parse_isWellFormed source file file', fun error herror text hcause => ?_⟩
  obtain ⟨token, htoken, hposition, hdescribes⟩ := exists_blames_of_mem_errors herror
  rw [hcause] at hdescribes
  obtain ⟨hkind, hliteral, rfl⟩ := hdescribes
  have hmem : token ∈ tokenize source file := by
    rcases htoken with hmem | rfl
    · exact hmem
    · cases hkind
  have hpositional := (tokenize_isScanned source file token hmem).number hkind
  exact ⟨token, hmem, hkind, rfl, hposition, hpositional,
    Operand.infinite_of_literal?_eq_none hkind hpositional hliteral⟩

/-- Recovery goes on behind a list that breaks off and a number that is too large. -/
theorem parse_of_source_of_large_number :
    let digits := List.replicate 309 '9'
    let source := String.ofList ("f(\nlet x = ".toList ++ digits ++ "\nlet y = 2.5".toList)
    let parsed := parse (tokenize source "shell") "shell"
    parsed.program.isWellFormed ∧ parsed.program.statements.length = 1 ∧
      ∃ error ∈ parsed.errors, ∃ text, error.cause = .malformedNumber text ∧
        error.position = ⟨11, "shell"⟩ ∧
        ∃ value, Binary64.ofText? text.toList = some value ∧ value.isFinite = false := by
  intro digits source parsed
  have hparsed : parsed.program.statements.length = 1 ∧ ∃ error ∈ parsed.errors,
      error.cause.title = "NumberParseError" ∧ error.position = ⟨11, "shell"⟩ := by
    simp only [parsed, source, tokenize, String.toList_ofList]
    decide +kernel
  obtain ⟨hwf, hnumbers⟩ := parse_of_source source "shell" "shell"
  obtain ⟨hlength, error, herror, htitle, hposition⟩ := hparsed
  obtain ⟨text, hcause⟩ : ∃ text, error.cause = .malformedNumber text := by
    generalize error.cause = cause at htitle
    cases cause with
    | malformedNumber text => exact ⟨text, rfl⟩
    | _ => simp [Cause.title] at htitle
  obtain ⟨_, -, -, -, -, -, value, hvalue, -, hinfinite⟩ := hnumbers error herror text hcause
  refine ⟨hwf, hlength, error, herror, text, hcause, hposition, value, hvalue, ?_⟩
  rw [Binary64.isFinite, hinfinite]
  exact decide_eq_false (Nat.lt_irrefl _)

end ShellFrontend
