import ShellFrontend.Grammar.Statement
import ShellFrontend.Proofs.Reads

/-! # What the grammar reads

Expressions and blocks close the brackets that they open. A statement does so too, but for
its end: between braces the terminator belongs to the passage, outside it stands behind.
-/

set_option autoImplicit false

namespace ShellFrontend

open ShellFrontend.Parser (FailsWithin Reads)

structure Layer.Reads (layer : Layer) : Prop where
  expr : ∀ floor braces parens,
    (layer.expr floor).toParser.Reads braces parens braces parens
  block : ∀ braces parens, layer.block.toParser.Reads braces parens braces parens

section tokens

variable (braces parens : Nat)

theorem reads_plain {kind : Kind} (h : kind.isPlain) :
    (Advancing.token kind).Reads braces parens braces parens :=
  Reads.token fun hkind => .plain (hkind ▸ h) (.nil _ _)

theorem reads_openParen : (Advancing.token .openParen).Reads braces parens braces (parens + 1) :=
  Reads.token fun hkind => .openParen hkind (.nil _ _)

theorem reads_closeParen : (Advancing.skip .closeParen).Reads braces (parens + 1) braces parens :=
  Reads.skip fun hkind => .closeParen hkind (.nil _ _)

end tokens

theorem commaList_reads {α : Type} {item : Advancing α} (what : String)
    (hitem : ∀ braces parens, item.toParser.Reads braces parens braces parens)
    (braces parens : Nat) : (commaList what item).Reads braces parens braces parens := by
  have hmany : (Parser.many (CommaList.turn what item)).Reads braces (parens + 1) braces parens := by
    refine Reads.many (fun {kind _} h => ?_) (fun {kind _} h => ?_)
    · unfold CommaList.turn at h
      split at h
      · cases h
        refine (reads_plain _ _ rfl).bind fun _ => Reads.select fun kind => ?_
        split
        · exact Reads.failing _ _ _ _ _
        · exact hitem _ _
      · cases h
    · unfold CommaList.turn at h
      split at h
      · cases h
      · cases h
        exact reads_closeParen _ _
  refine (reads_openParen _ _).bind fun _ => Reads.select fun kind => ?_
  split
  · exact (reads_closeParen _ _).bind fun _ => Reads.pure _ _ _
  · exact (hitem _ _).bind fun _ => hmany.bind fun _ => Reads.pure _ _ _

namespace Operand

variable {layer : Layer}

theorem literal_reads (braces parens : Nat) : literal.Reads braces parens braces parens := by
  refine Reads.accept fun {token value} h => .plain ?_ (.nil _ _)
  unfold literal? at h
  split at h <;> simp_all [Kind.isPlain]

theorem identifier_reads (h : layer.Reads) (braces parens : Nat) :
    (identifier layer).Reads braces parens braces parens := by
  refine (reads_plain _ _ rfl).bind fun _ => Reads.select fun kind => ?_
  split
  · exact (commaList_reads _ (h.expr _) _ _).bind fun _ => Reads.pure _ _ _
  · exact Reads.pure _ _ _

theorem unary_reads (h : layer.Reads) (braces parens : Nat) :
    (unary layer).Reads braces parens braces parens := by
  refine (Reads.accept fun {token op} hop => .plain ?_ (.nil _ _)).bind
    fun _ => (h.expr _ _ _).bind fun _ => Reads.pure _ _ _
  rw [← UnaryOperator.ofKind?_eq_some_iff.1 hop]
  cases op <;> rfl

theorem grouping_reads (h : layer.Reads) (braces parens : Nat) :
    (grouping layer).Reads braces parens braces parens :=
  (reads_openParen _ _).bind fun _ => (h.expr _ _ _).bind fun _ =>
    (reads_closeParen _ _).bind fun _ => Reads.pure _ _ _

theorem conditionOpening_reads (braces parens : Nat) :
    conditionOpening.Reads braces parens braces (parens + 1) := by
  refine Reads.accept fun {token value} h => .openParen ?_ (.nil _ _)
  split at h
  · assumption
  · cases h

def elseBlock (layer : Layer) : Parser (Option (List Stmt)) := do
  let body ← layer.block.toParser
  pure (some body)

theorem run_alternative_of_elseWord {word : Token} (hword : word.kind = .elseWord)
    (final : Position) (rest : List Token) :
    (alternative layer).run final (word :: rest) = (elseBlock layer).run final rest := by
  have hnext : elseOnNextLine (word :: rest) = false := by
    simp [elseOnNextLine_cons final, Token.isLineBreak, hword]
  rw [alternative, Parser.run_bind_of_ok (Parser.run_skipLineBreakBefore final _), hnext,
    Reply.after_nil, Parser.run_select]
  simp only [Bool.false_eq_true, if_false, frontToken_cons, hword]
  rw [Parser.run_bind_of_ok (Advancing.run_skip_of_kind hword final rest), Reply.after_nil]
  rfl

theorem run_alternative_of_lineBreak {lineBreak word : Token} (hbreak : lineBreak.isLineBreak)
    (hword : word.kind = .elseWord) (final : Position) (rest : List Token) :
    (alternative layer).run final (lineBreak :: word :: rest) =
      (elseBlock layer).run final rest := by
  have hnext : elseOnNextLine (lineBreak :: word :: rest) := by
    simp [elseOnNextLine, hbreak, hword]
  rw [alternative, Parser.run_bind_of_ok (Parser.run_skipLineBreakBefore final _), if_pos hnext,
    ← run_alternative_of_elseWord hword, alternative,
    Parser.run_bind_of_ok (Parser.run_skipLineBreakBefore final (word :: rest)), if_neg]
  · rfl
  · simp [elseOnNextLine_cons final, Token.isLineBreak, hword]

theorem run_alternative_of_none {final : Position} {tokens : List Token}
    (hnext : elseOnNextLine tokens = false) (hfront : (frontToken final tokens).kind ≠ .elseWord) :
    (alternative layer).run final tokens = .ok none tokens [] := by
  rw [alternative, Parser.run_bind_of_ok (Parser.run_skipLineBreakBefore final _), hnext,
    Reply.after_nil, Parser.run_select]
  simp only [Bool.false_eq_true, if_false]
  rfl

/-- What a conditional may find behind its first block. -/
theorem alternative_cases (final : Position) (tokens : List Token) :
    (∃ lineBreak word rest, tokens = lineBreak :: word :: rest ∧ lineBreak.isLineBreak ∧
        word.kind = .elseWord) ∨
      (∃ word rest, tokens = word :: rest ∧ word.kind = .elseWord) ∨
      (elseOnNextLine tokens = false ∧ (frontToken final tokens).kind ≠ .elseWord) := by
  rcases tokens with - | ⟨first, rest⟩
  · exact .inr (.inr ⟨rfl, by simp⟩)
  · by_cases hfirst : first.kind = .elseWord
    · exact .inr (.inl ⟨first, rest, rfl, hfirst⟩)
    · rcases rest with - | ⟨second, rest⟩
      · exact .inr (.inr ⟨rfl, hfirst⟩)
      · cases hnext : elseOnNextLine (first :: second :: rest) with
        | false => exact .inr (.inr ⟨rfl, hfirst⟩)
        | true =>
          simp only [elseOnNextLine, Bool.and_eq_true, decide_eq_true_eq] at hnext
          exact .inl ⟨first, second, rest, rfl, hnext.1, hnext.2⟩

theorem elseBlock_reads (h : layer.Reads) (braces parens : Nat) :
    (elseBlock layer).Reads braces parens braces parens :=
  (h.block _ _).bind fun _ => Reads.pure _ _ _

theorem alternative_reads (h : layer.Reads) (braces parens : Nat) :
    (alternative layer).Reads braces parens braces parens where
  ok {final tokens value rest started} hrun := by
    rcases alternative_cases final tokens with
      ⟨lineBreak, word, tail, rfl, hbreak, hword⟩ | ⟨word, tail, rfl, hword⟩ | ⟨hnext, hfront⟩
    · rw [run_alternative_of_lineBreak hbreak hword] at hrun
      obtain ⟨read, rfl, hread, hsame⟩ := (elseBlock_reads h _ _).ok hrun
      refine ⟨lineBreak :: word :: read, rfl,
        .lineBreak hbreak hword (.plain (by rw [hword]; rfl) hread), fun hfront => ?_⟩
      rw [← hsame hfront]
      exact run_alternative_of_lineBreak hbreak hword _ _
    · rw [run_alternative_of_elseWord hword] at hrun
      obtain ⟨read, rfl, hread, hsame⟩ := (elseBlock_reads h _ _).ok hrun
      refine ⟨word :: read, rfl, .plain (by rw [hword]; rfl) hread, fun hfront => ?_⟩
      rw [← hsame hfront]
      exact run_alternative_of_elseWord hword _ _
    · rw [run_alternative_of_none hnext hfront] at hrun
      cases hrun
      refine ⟨[], rfl, .nil _ _, fun hsame => ?_⟩
      exact run_alternative_of_none (hsame.not_elseOnNextLine hnext) (hsame.front ▸ hfront)
  fail := by
    intro final tokens error rest started hrun
    rcases alternative_cases final tokens with
      ⟨lineBreak, word, tail, rfl, hbreak, hword⟩ | ⟨word, tail, rfl, hword⟩ | ⟨hnext, hfront⟩
    · rw [run_alternative_of_lineBreak hbreak hword] at hrun
      obtain ⟨hposition, read, _, _, rfl, hread, hsame⟩ := (elseBlock_reads h _ _).fail hrun
      refine ⟨hposition, lineBreak :: word :: read, _, _, rfl,
        .lineBreak hbreak hword (.plain (by rw [hword]; rfl) hread), fun hfront => ?_⟩
      rw [← hsame hfront]
      exact run_alternative_of_lineBreak hbreak hword _ _
    · rw [run_alternative_of_elseWord hword] at hrun
      obtain ⟨hposition, read, _, _, rfl, hread, hsame⟩ := (elseBlock_reads h _ _).fail hrun
      refine ⟨hposition, word :: read, _, _, rfl, .plain (by rw [hword]; rfl) hread,
        fun hfront => ?_⟩
      rw [← hsame hfront]
      exact run_alternative_of_elseWord hword _ _
    · rw [run_alternative_of_none hnext hfront] at hrun
      cases hrun

theorem conditional_reads (h : layer.Reads) (braces parens : Nat) :
    (conditional layer).Reads braces parens braces parens :=
  (reads_plain _ _ rfl).bind fun _ => (conditionOpening_reads _ _).bind fun _ =>
    (h.expr _ _ _).bind fun _ => (reads_closeParen _ _).bind fun _ => (h.block _ _).bind fun _ =>
      (alternative_reads h _ _).bind fun _ => Reads.pure _ _ _

theorem function_reads (h : layer.Reads) (braces parens : Nat) :
    (function layer).Reads braces parens braces parens :=
  (reads_plain _ _ rfl).bind fun _ =>
    (commaList_reads _ (fun _ _ => reads_plain _ _ rfl) _ _).bind fun _ =>
      (h.block _ _).bind fun _ => Reads.pure _ _ _

theorem rule_reads (h : layer.Reads) (rule : OperandRule) (braces parens : Nat) :
    (rule.parser layer).Reads braces parens braces parens := by
  cases rule with
  | literal => exact literal_reads _ _
  | identifier => exact identifier_reads h _ _
  | unary => exact unary_reads h _ _
  | grouping => exact grouping_reads h _ _
  | conditional => exact conditional_reads h _ _
  | function => exact function_reads h _ _

end Operand

variable {layer : Layer}

theorem operand_reads (rules : Rules) (h : layer.Reads) (braces parens : Nat) :
    (operand rules layer).Reads braces parens braces parens := by
  refine Reads.selecting fun kind => ?_
  split
  · exact Operand.rule_reads h _ _ _
  · exact Reads.failing _ _ _ _ _

theorem operation_reads (h : layer.Reads) (power : Power) (braces parens : Nat) :
    (Expression.operation layer power).Reads braces parens braces parens := by
  refine (Reads.accept fun {token op} hop => .plain ?_ (.nil _ _)).bind
    fun _ => (h.expr _ _ _).bind fun _ => Reads.pure _ _ _
  rw [← BinaryOperator.ofKind?_eq_some_iff.1 hop]
  cases op <;> rfl

theorem expression_reads (rules : Rules) (h : layer.Reads) (floor : Power) (braces parens : Nat) :
    (expression rules layer floor).Reads braces parens braces parens := by
  refine (operand_reads rules h _ _).bind fun _ => Reads.bind (Reads.many ?_ ?_)
    fun _ => Reads.pure _ _ _
  · intro kind item hturn
    unfold Expression.turn at hturn
    split at hturn
    · split at hturn
      · cases hturn
        exact operation_reads h _ _ _
      · cases hturn
    · cases hturn
  · intro kind last hturn
    unfold Expression.turn at hturn
    split at hturn
    · split at hturn
      · cases hturn
      · cases hturn
        exact Reads.pure _ _ _
    · cases hturn
      exact Reads.pure _ _ _

/-- A statement reads like an expression or block, but its last token may be a terminator, of
which it matters only whether it is a line break before an `else`. -/
structure Parser.ReadsStatement {α : Type} (parser : Parser α) (braces parens : Nat) : Prop where
  ok : ∀ {final tokens value rest started}, parser.run final tokens = .ok value rest started →
    (∃ read stop, tokens = read ++ stop :: rest ∧ stop.kind = .terminator ∧
      Passage braces parens read braces parens ∧
      ∀ {final' rest'}, (elseOnNextLine (stop :: rest') → elseOnNextLine (stop :: rest)) →
        parser.run final' (read ++ stop :: rest') = .ok value rest' started) ∨
    ∃ read, tokens = read ++ rest ∧ Passage braces parens read braces parens ∧
      ∀ {final' rest'}, SameFront final final' rest rest' →
        parser.run final' (read ++ rest') = .ok value rest' started
  fail : parser.FailsWithin braces parens

namespace Parser.ReadsStatement

variable {α β : Type} {parser : Parser α} {next : α → Parser β} {braces parens : Nat}

theorem of_reads (h : parser.Reads braces parens braces parens) :
    parser.ReadsStatement braces parens where
  ok hrun := .inr (h.ok hrun)
  fail := h.fail

/-- Between braces the terminator belongs to the passage. -/
theorem reads (h : parser.ReadsStatement (braces + 1) parens) :
    parser.Reads (braces + 1) parens (braces + 1) parens where
  ok {final tokens value rest started} hrun := by
    rcases h.ok hrun with ⟨read, stop, rfl, hstop, hread, hsame⟩ | hread
    · refine ⟨read ++ [stop], by simp, hread.append (.terminator hstop (.nil _ _)), fun hfront => ?_⟩
      rw [List.append_assoc]
      exact hsame (hfront.cons stop).elseOnNextLine
    · exact hread
  fail := h.fail

theorem ok_read (h : parser.ReadsStatement braces parens) {final : Position} {tokens rest : List Token}
    {value : α} {started : List Kind} (hrun : parser.run final tokens = .ok value rest started) :
    ∃ read, tokens = read ++ rest ∧ ∀ token ∈ read, token.kind ≠ .endOfInput := by
  rcases h.ok hrun with ⟨read, stop, rfl, hstop, hread, -⟩ | ⟨read, rfl, hread, -⟩
  · refine ⟨read ++ [stop], by simp, fun token htoken => ?_⟩
    rcases List.mem_append.1 htoken with htoken | htoken
    · exact hread.kind_ne_endOfInput token htoken
    · obtain rfl := List.mem_singleton.1 htoken
      simp [hstop]
  · exact ⟨read, rfl, hread.kind_ne_endOfInput⟩

theorem bind (hparser : parser.Reads braces parens braces parens)
    (hnext : ∀ value, (next value).ReadsStatement braces parens) :
    (parser >>= next).ReadsStatement braces parens where
  ok {final tokens result rest started} h := by
    obtain ⟨value, middle, earlier, later, hfirst, hsecond, rfl⟩ := run_bind_eq_ok_iff.1 h
    obtain ⟨read, rfl, hread, hsame⟩ := hparser.ok hfirst
    rcases (hnext value).ok hsecond with
      ⟨more, stop, rfl, hstop, hmore, hsame'⟩ | ⟨more, rfl, hmore, hsame'⟩
    · refine .inl ⟨read ++ more, stop, (List.append_assoc ..).symm, hstop, hread.append hmore,
        fun hnextLine => ?_⟩
      have hfront : ∀ final', SameFront final final' (stop :: rest) (stop :: _) :=
        fun _ => ⟨rfl, hnextLine⟩
      rw [List.append_assoc, run_bind_of_ok (hsame ((hfront _).append more)), hsame' hnextLine]
      rfl
    · refine .inr ⟨read ++ more, (List.append_assoc ..).symm, hread.append hmore, fun hfront => ?_⟩
      rw [List.append_assoc, run_bind_of_ok (hsame (hfront.append more)), hsame' hfront]
      rfl
  fail := FailsWithin.bind hparser fun value => (hnext value).fail

theorem selecting {choice : Kind → Advancing α}
    (h : ∀ kind, (choice kind).toParser.ReadsStatement braces parens) :
    (Advancing.select choice).toParser.ReadsStatement braces parens where
  ok {final tokens value rest started} hrun := by
    have hrun' : (choice (frontToken final tokens).kind).run final tokens = .ok value rest started :=
      hrun
    rcases (h _).ok hrun' with ⟨read, stop, rfl, hstop, hread, hsame⟩ | ⟨read, rfl, hread, hsame⟩
    · refine .inl ⟨read, stop, rfl, hstop, hread, fun {final' rest'} hnextLine => ?_⟩
      have hfront : SameFront final final' (stop :: rest) (stop :: rest') := ⟨rfl, hnextLine⟩
      rw [(hfront.append read).front] at hsame
      exact hsame hnextLine
    · refine .inr ⟨read, rfl, hread, fun hfront => ?_⟩
      rw [(hfront.append read).front] at hsame
      exact hsame hfront
  fail := FailsWithin.select fun kind => (h kind).fail

theorem starting {parser : Advancing α} (kind : Kind)
    (h : parser.toParser.ReadsStatement braces parens) :
    (Advancing.starting kind parser).toParser.ReadsStatement braces parens where
  ok {final tokens value rest started} hrun := by
    obtain ⟨started, hparser, rfl⟩ := Advancing.run_starting_eq_ok_iff.1 hrun
    rcases h.ok hparser with ⟨read, stop, rfl, hstop, hread, hsame⟩ | ⟨read, rfl, hread, hsame⟩
    · exact .inl ⟨read, stop, rfl, hstop, hread, fun hnextLine =>
        Advancing.run_starting_eq_ok_iff.2 ⟨started, hsame hnextLine, rfl⟩⟩
    · exact .inr ⟨read, rfl, hread, fun hfront =>
        Advancing.run_starting_eq_ok_iff.2 ⟨started, hsame hfront, rfl⟩⟩
  fail := FailsWithin.starting kind h.fail

end Parser.ReadsStatement

namespace Statement

theorem run_ending_of_terminator {stop : Token} (h : stop.kind = .terminator) (final : Position)
    (rest : List Token) : ending.run final (stop :: rest) = .ok () rest [] := by
  rw [ending, Parser.run_select]
  simp only [frontToken_cons, h]
  exact Advancing.run_skip_of_kind h final rest

theorem run_ending_of_open {final : Position} {tokens : List Token}
    (h : (frontToken final tokens).kind = .closeBrace ∨
      (frontToken final tokens).kind = .endOfInput) :
    ending.run final tokens = .ok () tokens [] := by
  rw [ending, Parser.run_select]
  rcases h with h | h <;> simp only [h] <;> rfl

/-- A statement ends with a terminator, or in front of what ends its block or the program. -/
theorem ending_cases {final : Position} {tokens rest : List Token} {started : List Kind}
    (h : ending.run final tokens = .ok () rest started) : started = [] ∧
      ((∃ stop, tokens = stop :: rest ∧ stop.kind = .terminator) ∨
        tokens = rest ∧ ((frontToken final rest).kind = .closeBrace ∨
          (frontToken final rest).kind = .endOfInput)) := by
  rw [ending, Parser.run_select] at h
  split at h
  · rename_i hkind
    cases tokens with
    | nil => cases hkind
    | cons stop tail =>
      have hstop : stop.kind = .terminator := hkind
      rw [Advancing.run_skip_of_kind hstop] at h
      cases h
      exact ⟨rfl, .inl ⟨stop, rfl, hstop⟩⟩
  · cases h
    exact ⟨rfl, .inr ⟨rfl, .inl ‹_›⟩⟩
  · cases h
    exact ⟨rfl, .inr ⟨rfl, .inr ‹_›⟩⟩
  · cases h
  · cases h

theorem ending_failsWithin (braces parens : Nat) : ending.FailsWithin braces parens := by
  refine FailsWithin.select fun kind => ?_
  split
  · exact FailsWithin.skip (by decide)
  · exact (Reads.pure () braces parens).fail
  · exact (Reads.pure () braces parens).fail
  · exact (Reads.failing _ braces parens braces parens).fail
  · exact (Reads.failing _ braces parens braces parens).fail

variable {layer : Layer} {braces parens : Nat}

theorem finished_readsStatement (stmt : Stmt) :
    (ending >>= fun _ => pure stmt).ReadsStatement braces parens where
  ok {final tokens value rest started} hrun := by
    obtain ⟨_, _, _, _, hending, hpure, rfl⟩ := Parser.run_bind_eq_ok_iff.1 hrun
    cases hpure
    obtain ⟨rfl, ⟨stop, rfl, hstop⟩ | ⟨rfl, hopen⟩⟩ := ending_cases hending
    · refine .inl ⟨[], stop, rfl, hstop, .nil _ _, fun _ => ?_⟩
      rw [List.nil_append, Parser.run_bind_of_ok (run_ending_of_terminator hstop _ _)]
      rfl
    · refine .inr ⟨[], rfl, .nil _ _, fun hfront => ?_⟩
      rw [hfront.front] at hopen
      rw [List.nil_append, Parser.run_bind_of_ok (run_ending_of_open hopen)]
      rfl
  fail := by
    intro final tokens error rest started hrun
    exact (ending_failsWithin braces parens).bind_pure _ hrun

theorem binding_readsStatement (h : layer.Reads) :
    (binding layer).ReadsStatement braces parens :=
  .bind (reads_plain _ _ rfl) fun _ => .bind (reads_plain _ _ rfl) fun _ =>
    .bind (.skip fun hkind => .plain (by rw [hkind]; rfl) (.nil _ _)) fun _ =>
      .bind (h.expr _ _ _) fun _ => finished_readsStatement _

theorem result_readsStatement (h : layer.Reads) :
    (result layer).ReadsStatement braces parens :=
  .bind (reads_plain _ _ rfl) fun _ => .bind (h.expr _ _ _) fun _ => finished_readsStatement _

theorem expression_readsStatement (h : layer.Reads) :
    (expression layer).ReadsStatement braces parens :=
  .bind (h.expr _ _ _) fun _ => finished_readsStatement _

theorem block_readsStatement (h : layer.Reads) : (block layer).ReadsStatement braces parens :=
  .of_reads ((h.block _ _).bind fun _ => Reads.pure _ _ _)

theorem rule_readsStatement (h : layer.Reads) (rule : StatementRule) :
    (rule.parser layer).ReadsStatement braces parens := by
  cases rule with
  | binding => exact binding_readsStatement h
  | result => exact result_readsStatement h
  | block => exact block_readsStatement h

end Statement

theorem statement_readsStatement {layer : Layer} (rules : Rules) (h : layer.Reads)
    (braces parens : Nat) : (statement rules layer).ReadsStatement braces parens := by
  refine .selecting fun kind => .starting kind ?_
  split
  · exact Statement.rule_readsStatement h _
  · exact Statement.expression_readsStatement h

theorem bracedBlock_reads {layer : Layer} (rules : Rules) (h : layer.Reads) (braces parens : Nat) :
    (bracedBlock rules layer).Reads braces parens braces parens := by
  have hmany : (Parser.many (Block.turn rules layer)).Reads (braces + 1) parens braces parens := by
    refine Reads.many (fun {kind _} hturn => ?_) (fun {kind _} hturn => ?_)
    · unfold Block.turn at hturn
      split at hturn <;> cases hturn
      · exact (Reads.token fun hkind => .terminator hkind (.nil _ _)).bind
          fun _ => Reads.pure _ _ _
      · exact (statement_readsStatement rules h _ _).reads.bind fun _ => Reads.pure _ _ _
    · unfold Block.turn at hturn
      split at hturn <;> cases hturn
      · exact Reads.skip fun hkind => .closeBrace hkind (.nil _ _)
      · exact Reads.failing _ _ _ _ _
  exact (Reads.token fun hkind => .openBrace hkind (.nil _ _)).bind
    fun _ => hmany.bind fun _ => Reads.pure _ _ _

theorem Layer.closed_reads : Layer.closed.Reads where
  expr _ _ _ := Reads.failing (fun _ => .tooDeep nestingLimit) _ _ _ _
  block _ _ := Reads.failing (fun _ => .tooDeep nestingLimit) _ _ _ _

theorem Layer.ofLevels_reads (rules : Rules) (levels : Nat) : (Layer.ofLevels rules levels).Reads := by
  induction levels with
  | zero => exact closed_reads
  | succ levels ih => exact ⟨expression_reads rules ih, bracedBlock_reads rules ih⟩

end ShellFrontend
