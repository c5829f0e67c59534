import Mathlib.Data.List.Basic
import ShellFrontend.Proofs.ActionOutcomes

/-! # Progress

Whatever is read in a session, under any rules, the work on the cursor follows the parser of what is
read, rule by rule. So it ends, leaves all but the cursor alone, and takes a token if it brings a
value. It ends because there are only so many levels to open, with few calls between one level and
the next, and because each turn of a loop takes a token.
-/

set_option autoImplicit false

namespace ShellFrontend

namespace Session

variable {α : Type} {rules : Rules} {depth : Nat} {layer : Layer}

/-- With so many levels open, what is called follows the parsers of the layer. -/
structure FollowsLayer (rules : Rules) (depth : Nat) (layer : Layer) : Prop where
  expr : ∀ floor, Follows rules depth (fun calls => perform calls (.expression floor))
    (layer.expr floor).toParser
  block : Follows rules depth (fun calls => perform calls .block) layer.block.toParser

theorem commaTurn_follows {item : Nat → Action α} {item' : Advancing α} (what : String)
    (h : Follows rules depth item item'.toParser) (before : List α) :
    Follows rules depth (fun calls => Action.commaTurn what (item calls) before)
      (CommaList.entry what item' before).toParser := by
  refine h.bind fun value => .select fun kind => ?_
  cases kind with
  | comma =>
    refine .advance_bind (by decide) (.select fun kind => ?_)
    cases kind with
    | closeParen => exact .fail _
    | _ => exact .pure _
  | _ => exact Follows.expect_bind (by decide) (.pure _) _

theorem commaList_follows {item : Nat → Action α} {item' : Advancing α} (what : String)
    (h : Follows rules depth item item'.toParser) :
    Follows rules depth (fun calls => Action.commaList calls what (item calls))
      (commaList what item').toParser := by
  have hitems : Follows rules depth
      (fun calls => Action.loop (Action.commaTurn what (item calls)) calls [])
      (CommaList.itemsBehind what item' []) :=
    .loop (commaTurn_follows what h) (CommaList.itemsBehind_eq what item')
      (fun before _ _ _ _ _ hrun => (CommaList.entry what item' before).rest_length_lt hrun) []
  rw [CommaList.itemsBehind_nil] at hitems
  refine (Follows.expect none (by decide)).bind fun _ => .select fun kind => ?_
  cases kind with
  | closeParen => exact .advance_bind (by decide) (.pure [])
  | _ => exact hitems _

theorem elseOnNextLine_remaining (session : Session) :
    elseOnNextLine session.remaining =
      (session.token.isLineBreak && session.next.kind = .elseWord) := by
  cases hremaining : session.remaining with
  | nil =>
    rw [token_eq hremaining]
    rfl
  | cons token rest =>
    rw [elseOnNextLine_cons session.final, token_eq hremaining, next, hremaining]
    rfl

theorem skipLineBreak_follows :
    Follows rules depth (fun _ => Action.skipLineBreak)
      (Parser.skipLineBreakBefore .elseWord) := by
  intro kind session _ _ _
  refine ⟨0, fun _ _ => ?_⟩
  apply (Action.run_bind_of_ok (rfl : (Action.look _).run session = _)).trans
  rw [run_eq, Parser.run_skipLineBreakBefore, ← elseOnNextLine_remaining]
  cases hnext : elseOnNextLine session.remaining with
  | false =>
    change _ = some (_, session.moveTo session.remaining)
    rw [moveTo_remaining]
    rfl
  | true =>
    obtain ⟨token, rest, hremaining⟩ : ∃ token rest, session.remaining = token :: rest :=
      List.exists_cons_of_ne_nil fun hnil => by simp [hnil, elseOnNextLine] at hnext
    change _ = some (_, session.moveTo session.remaining.tail)
    rw [hremaining, List.tail_cons, ← advance_eq hremaining]
    rfl

theorem ending_follows : Follows rules depth (fun _ => Action.ending) Statement.ending := by
  refine .select fun kind => ?_
  cases kind with
  | terminator => exact .advance (by decide)
  | closeBrace | endOfInput => exact .pure ()
  | _ => exact .fail _

section layer

variable (h : FollowsLayer rules depth layer)

include h

theorem alternative_follows :
    Follows rules depth (fun calls => Action.alternative (perform calls))
      (Operand.alternative layer) := by
  refine skipLineBreak_follows.bind fun _ => .select fun kind => ?_
  cases kind with
  | elseWord => exact .advance_bind (by decide) (h.block.bind_pure _)
  | _ => exact .pure none

theorem operandBy_follows (rule : OperandRule) :
    Follows rules depth (fun calls => perform calls (.operandBy rule))
      (rule.parser layer).toParser := by
  refine .called (fun _ => rfl) ?_
  cases rule with
  | literal => exact .accept rfl
  | identifier =>
    refine (Follows.expect none (by decide)).bind fun name => .select fun kind => ?_
    cases kind with
    | openParen => exact (commaList_follows _ (h.expr _)).bind_pure _ _
    | _ => exact .pure _
  | unary => exact (Follows.accept rfl).bind fun op => (h.expr _).bind_pure _
  | grouping =>
    exact (Follows.expect none (by decide)).bind fun _ => (h.expr _).bind fun inner =>
      .expect_bind (by decide) (.pure inner)
  | conditional =>
    exact (Follows.expect none (by decide)).bind fun _ =>
      (Follows.expect (some _) (by decide)).bind fun _ => (h.expr _).bind fun condition =>
      .expect_bind (by decide) (h.block.bind fun consequence => (alternative_follows h).bind_pure _)
  | function =>
    exact (Follows.expect none (by decide)).bind fun _ =>
      (commaList_follows _ (Follows.expect none (by decide))).bind fun parameters =>
      h.block.bind_pure _

theorem statementBy_follows (rule : StatementRule) :
    Follows rules depth (fun calls => perform calls (.statementBy rule))
      (rule.parser layer).toParser := by
  refine .called (fun _ => rfl) ?_
  cases rule with
  | binding =>
    exact (Follows.expect none (by decide)).bind fun _ =>
      (Follows.expect none (by decide)).bind fun name => .expect_bind (by decide)
      ((h.expr _).bind fun value => ending_follows.bind_pure _)
  | result =>
    exact (Follows.expect none (by decide)).bind fun _ => (h.expr _).bind fun value =>
      ending_follows.bind_pure _
  | block => exact h.block.bind_pure _

theorem operation_follows (left : Expr) (power : Power) :
    Follows rules depth (fun calls => perform calls (.operation left power))
      ((Expression.operation layer power).map (Expression.combine left)).toParser := by
  have hparser : ((Expression.operation layer power).map (Expression.combine left)).toParser =
      (Advancing.accept (fun token => BinaryOperator.ofKind? token.kind)
        fun token => .misplaced token.text "expected an infix operator").toParser >>= fun op =>
      (layer.expr power).toParser >>= fun right => pure (.binary left op right) := by
    change (_ >>= fun op => _ >>= fun right => pure (op, right)) >>= _ = _
    simp only [bind_assoc, pure_bind]
    rfl
  rw [hparser]
  exact .called (fun _ => rfl) ((Follows.accept rfl).bind fun op => (h.expr power).bind_pure _)

theorem operatorTurn_follows (floor : Power) (left : Expr) (kind : Kind) :
    FollowsAt rules depth kind (fun calls => Action.operatorTurn (perform calls) floor left)
      (Parser.gatherTurn Expression.combine left (Expression.turn rules layer floor kind)) := by
  refine .rule? ?_
  unfold Expression.turn
  cases rules.operator kind with
  | none => exact .pure _
  | some power =>
    dsimp only
    split
    · have hoperation := (operation_follows h left power).bind_pure (Sum.inl (β := Expr))
      rw [Advancing.map_bind] at hoperation
      exact hoperation kind
    · exact .pure _

theorem operand_follows :
    Follows rules depth (fun calls => Action.operand (perform calls))
      (operand rules layer).toParser := by
  refine .selecting fun kind => .rule? ?_
  cases rules.operand kind with
  | some rule => exact operandBy_follows h rule kind
  | none => exact .fail _

theorem expression_follows (floor : Power) :
    Follows rules depth (fun calls => Action.expression calls (perform calls) floor)
      (expression rules layer floor).toParser :=
  (operand_follows h).bind fun first =>
    .gather (operatorTurn_follows h floor) first

theorem statement_follows :
    Follows rules depth (fun calls => perform calls .statement)
      (statement rules layer).toParser := by
  refine .called (fun _ => rfl) (.selecting fun kind => .starting kind (.rule? ?_))
  cases rules.statement kind with
  | some rule => exact statementBy_follows h rule kind
  | none => exact ((h.expr _).bind fun value => ending_follows.bind_pure _) kind

theorem blockTurn_follows (body : List Stmt) (kind : Kind) :
    FollowsAt rules depth kind (fun calls => Action.blockTurn (perform calls) body)
      (Parser.gatherTurn (fun body entry => body ++ entry.toList) body
        (Block.turn rules layer kind)) := by
  refine .look ?_
  cases kind with
  | closeBrace => exact .advance_bind (by decide) (.pure _)
  | endOfInput =>
    change FollowsAt _ _ _ _ (Parser.fail _ >>= _)
    rw [Parser.fail_bind]
    exact .fail _
  | terminator =>
    change FollowsAt _ _ _ _ (((Advancing.token .terminator).map fun _ => none).toParser >>= _)
    rw [Advancing.map_bind, ← Advancing.skip_bind]
    simp only [Option.toList_none, List.append_nil]
    exact .advance_bind (by decide) (.pure _)
  | _ =>
    change FollowsAt _ _ _ _ (((statement rules layer).map some).toParser >>= _)
    rw [Advancing.map_bind]
    exact (statement_follows h).bind_pure _ _

theorem block_follows :
    Follows rules depth (fun calls => Action.block calls (perform calls))
      (bracedBlock rules layer).toParser := by
  have hentries := Follows.gather (blockTurn_follows h) []
  simp only [Parser.gather, List.foldl_append_eq_append, List.nil_append, ← List.flatMap_def]
    at hentries
  refine (Follows.expect none (by decide)).bind fun _ => ?_
  simp only [List.filterMap_eq_flatMap_toList]
  exact hentries

theorem target_follows (target : Target α) :
    Follows rules depth (fun calls => perform calls target) (target.parser rules layer) := by
  cases target with
  | statement => exact statement_follows h
  | statementBy rule => exact statementBy_follows h rule
  | block => exact h.block
  | expression floor => exact h.expr floor
  | operandBy rule => exact operandBy_follows h rule
  | operation left power => exact operation_follows h left power

end layer

/-- The levels that a session has left are those of its layer. -/
theorem ofLevels_follows (rules : Rules) {levels depth : Nat}
    (hlevels : nestingLimit - depth = levels) :
    FollowsLayer rules depth (.ofLevels rules levels) := by
  induction levels generalizing depth with
  | zero =>
    have hdepth : nestingLimit ≤ depth := Nat.le_of_sub_eq_zero hlevels
    exact ⟨fun _ => .called (fun _ => rfl) (.nested_closed hdepth),
      .called (fun _ => rfl) (.nested_closed hdepth)⟩
  | succ levels ih =>
    have hdepth : depth < nestingLimit := by omega
    have hinner := ih (show nestingLimit - (depth + 1) = levels by omega)
    exact ⟨fun floor => .called (fun _ => rfl) (.nested hdepth (expression_follows hinner floor)),
      .called (fun _ => rfl) (.nested hdepth (block_follows hinner))⟩

section read

variable (session : Session) (target : Target α)

theorem perform_endsWith :
    EndsWith (fun calls => perform calls target) session (session.read target) := by
  rw [read_eq_run]
  exact target_follows (ofLevels_follows session.rules rfl) target session.kind rfl rfl rfl

theorem read_moveTo :
    ∃ rest, rest <:+ session.remaining ∧ (session.read target).2 = session.moveTo rest := by
  rw [read_eq_run]
  exact ⟨_, Parser.rest_suffix _ _ _, rfl⟩

variable {session target}

theorem cursor_lt_of_read {value : α} {after : Session}
    (h : session.read target = (.ok value, after)) : session.cursor < after.cursor := by
  rw [read_eq_run] at h
  obtain ⟨rest, started, hrun, rfl⟩ := exists_ok_of_run h
  have hlt : rest.length < session.remaining.length := by
    cases target with
    | statement => exact (statement _ _).rest_length_lt hrun
    | statementBy rule => exact (rule.parser _).rest_length_lt hrun
    | block => exact session.layer.block.rest_length_lt hrun
    | expression floor => exact (session.layer.expr floor).rest_length_lt hrun
    | operandBy rule => exact (rule.parser _).rest_length_lt hrun
    | operation left power => exact Advancing.rest_length_lt _ hrun
  exact Nat.lt_add_of_pos_right (Nat.sub_pos_of_lt hlt)

theorem Target.failsWithin (rules : Rules) {layer : Layer} (h : layer.Reads) (target : Target α) :
    (target.parser rules layer).FailsWithin 0 0 := by
  cases target with
  | statement => exact (statement_readsStatement rules h _ _).fail
  | statementBy rule => exact (Statement.rule_readsStatement h rule).fail
  | block => exact (h.block _ _).fail
  | expression floor => exact (h.expr _ _ _).fail
  | operandBy rule => exact (Operand.rule_reads h rule _ _).fail
  | operation left power => exact (operation_reads h power _ _).fail.bind_pure _

theorem position_of_read {error : SyntaxError} {after : Session}
    (h : session.read target = (.error error, after)) : error.position = after.position := by
  rw [read_eq_run] at h
  obtain ⟨rest, started, hrun, rfl⟩ := exists_fail_of_run h
  have hreads := Layer.ofLevels_reads session.rules (nestingLimit - session.depth)
  have hsuffix : rest <:+ session.remaining := Parser.suffix_of_run hrun
  calc
    error.position = (frontToken session.final rest).span.start :=
      (target.failsWithin session.rules hreads hrun).1
    _ = (session.moveTo rest).position := by
      rw [position, token_eq (remaining_moveTo hsuffix)]
      rfl

end read

/-- Whatever is read in a session, under any rules: with calls enough the reading ends, always in the
same way. The tokens, the file, the rules and the open levels are then as before, and the cursor has
not moved back or past the end. It has moved forward if something was read, and otherwise the error
is at the position of the session as it was left. -/
theorem perform_ends (session : Session) (hcursor : session.cursor ≤ session.tokens.length)
    (target : Target α) :
    ∃ result after, (∃ enough, ∀ calls, enough ≤ calls →
        (perform calls target).run session = some (result, after)) ∧
      session.read target = (result, after) ∧ after = { session with cursor := after.cursor } ∧
      session.cursor ≤ after.cursor ∧ after.cursor ≤ session.tokens.length ∧
      (∀ value, result = .ok value → session.cursor < after.cursor) ∧
      ∀ error, result = .error error → error.position = after.position := by
  rcases hread : session.read target with ⟨result, after⟩
  have hends := session.perform_endsWith target
  rw [hread] at hends
  obtain ⟨rest, -, hafter⟩ := session.read_moveTo target
  rw [hread] at hafter
  obtain rfl : after = session.moveTo rest := hafter
  refine ⟨result, _, hends, rfl, rfl, Nat.le_add_right _ _, ?_, ?_, ?_⟩
  · change session.cursor + (session.remaining.length - rest.length) ≤ _
    rw [remaining, List.length_drop]
    omega
  · rintro value rfl
    exact cursor_lt_of_read hread
  · rintro error rfl
    exact position_of_read hread

/-- Under rules that take a name for an operator, the error is at the name, behind the number that
has been read. -/
theorem perform_ends_of_odd_operator :
    let session : Session := { start (tokenize "1 x" "shell") "shell" with
      rules := Rules.standard.setOperator .identifier .unary, depth := 100 }
    session.cursor ≤ session.tokens.length ∧
      ∃ error after, (∃ enough, ∀ calls, enough ≤ calls →
          (perform calls .statement).run session = some (.error error, after)) ∧
        after = { session with cursor := 1 } ∧ error.position = after.position := by
  intro session
  have hcursor : session.cursor ≤ session.tokens.length := Nat.zero_le _
  have hread : (session.read .statement).1.isOk = false ∧ (session.read .statement).2.cursor = 1 := by
    decide +kernel
  obtain ⟨result, after, hends, hresult, hafter, -, -, -, hposition⟩ :=
    perform_ends session hcursor .statement
  rw [hresult] at hread
  rcases result with error | value
  · have hcursor' : after.cursor = 1 := hread.2
    rw [hcursor'] at hafter
    exact ⟨hcursor, error, after, hends, hafter, hposition error rfl⟩
  · cases hread.1

end Session

end ShellFrontend
