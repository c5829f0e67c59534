import ShellFrontend.Proofs.LevelLimit
import ShellFrontend.Session
import ShellFrontend.Token.Tokenize

/-! # Sessions with levels open

How many levels are open in a session decides nothing but whether they run out: two sessions that
differ in that number only read the same value or fail alike, unless the one with more levels open
runs out of them. The rules of the sessions may be any.
-/

set_option autoImplicit false

namespace ShellFrontend

def SyntaxError.IsTooDeep (error : SyntaxError) : Prop :=
  ∃ limit, error.cause = .tooDeep limit

namespace Session

/-- What a session may be asked to read at its cursor. -/
inductive Target : Type → Type
  | statement : Target Stmt
  | statementBy (rule : StatementRule) : Target Stmt
  | block : Target (List Stmt)
  | expression (floor : Power) : Target Expr
  | operandBy (rule : OperandRule) : Target Expr
  | operation (left : Expr) (power : Power) : Target Expr

variable {α : Type}

def read (session : Session) : Target α → Except SyntaxError α × Session
  | .statement => session.parseStatement
  | .statementBy rule => session.parseStatementBy rule
  | .block => session.parseBlock
  | .expression floor => session.parseExpression floor
  | .operandBy rule => session.parseOperandBy rule
  | .operation left power => session.parseOperation left power

def Target.parser (rules : Rules) (layer : Layer) : Target α → Parser α
  | statement => (ShellFrontend.statement rules layer).toParser
  | statementBy rule => (rule.parser layer).toParser
  | block => layer.block.toParser
  | expression floor => (layer.expr floor).toParser
  | operandBy rule => (rule.parser layer).toParser
  | operation left power => ((Expression.operation layer power).map (Expression.combine left)).toParser

theorem read_eq_run (session : Session) (target : Target α) :
    session.read target = session.run (target.parser session.rules session.layer) := by
  cases target <;> rfl

theorem Target.parser_refined (rules : Rules) {layer other : Layer} (h : layer.RefinedBy other)
    (target : Target α) : (target.parser rules layer).RefinedBy (target.parser rules other) := by
  cases target with
  | statement => exact statement_refined rules h
  | statementBy rule => exact StatementRule.parser_refined h rule
  | block => exact h.block
  | expression floor => exact h.expr floor
  | operandBy rule => exact Operand.rule_refined h rule
  | operation left power => exact (operation_refined h power).bind_pure _

/-- With fewer levels open a session reads the same, unless it ran out of levels before. -/
theorem read_refined (session : Session) {depth : Nat} (hdepth : depth ≤ session.depth)
    (target : Target α) :
    { session with depth }.read target =
        ((session.read target).1, { (session.read target).2 with depth }) ∨
      ∃ error, (session.read target).1 = .error error ∧ error.IsTooDeep := by
  have hlevels : session.layer.RefinedBy { session with depth }.layer :=
    Layer.ofLevels_refined session.rules (Nat.sub_le_sub_left hdepth nestingLimit)
  rw [read_eq_run, read_eq_run]
  rcases target.parser_refined session.rules hlevels session.final session.remaining with
    heq | ⟨limit, position, rest, started, hout⟩
  · left
    exact congrArg (fun reply : Reply α => (reply.result, ({ session with
      depth, cursor := session.cursor + (session.remaining.length - reply.rest.length) } : Session)))
      heq
  · right
    refine ⟨⟨.tooDeep limit, position⟩, ?_, limit, rfl⟩
    rw [run, hout]
    rfl

/-- The number of open levels cuts reading off and does nothing else. Where it does not, a session
with fewer levels open ends with the same value or error at the same token, and where one with fewer
runs out of levels, one with more has run out as well. -/
theorem read_of_depth_le (session : Session) {depth : Nat} (hdepth : depth ≤ session.depth)
    (target : Target α) :
    (∀ value after, session.read target = (.ok value, after) →
        { session with depth }.read target = (.ok value, { after with depth })) ∧
      (∀ error after, session.read target = (.error error, after) → ¬ error.IsTooDeep →
        { session with depth }.read target = (.error error, { after with depth })) ∧
      ∀ error after, { session with depth }.read target = (.error error, after) → error.IsTooDeep →
        ∃ error' after', session.read target = (.error error', after') ∧ error'.IsTooDeep := by
  rcases hread : session.read target with ⟨result, after⟩
  have hrefined := session.read_refined hdepth target
  rw [hread] at hrefined
  rcases hrefined with hsame | ⟨error, hresult, hdeep⟩
  · refine ⟨?_, ?_, ?_⟩
    · rintro value _ ⟨rfl, rfl⟩
      exact hsame
    · rintro error _ ⟨rfl, rfl⟩ -
      exact hsame
    · intro error after' hshallow hdeep
      rw [hsame] at hshallow
      obtain ⟨rfl, -⟩ := Prod.mk.inj hshallow
      exact ⟨error, after, rfl, hdeep⟩
  · obtain rfl : result = .error error := hresult
    refine ⟨?_, ?_, ?_⟩
    · rintro value _ ⟨⟩
    · rintro error' _ ⟨⟩ hnot
      exact absurd hdeep hnot
    · intro _ _ _ _
      exact ⟨error, after, rfl, hdeep⟩

/-- A call in parentheses opens three levels: with 125 open it is read as with none, and with 126 or
more open they run out. -/
theorem read_of_depth_le_of_call :
    let session (depth : Nat) : Session :=
      { (start (tokenize "(f(1))" "shell") "shell").addStandardRules with depth }
    0 ≤ (session 125).depth ∧ 126 ≤ (session 127).depth ∧
      (∃ value after, (session 125).read .statement = (.ok value, after) ∧
        (session 0).read .statement = (.ok value, { after with depth := 0 })) ∧
      ∃ error after, (session 127).read .statement = (.error error, after) ∧ error.IsTooDeep := by
  intro session
  have hmore : 126 ≤ (session 127).depth := by decide
  refine ⟨Nat.zero_le _, hmore, ?_, ?_⟩
  · have hok : ((session 125).read .statement).1.isOk := by decide +kernel
    rcases hread : (session 125).read .statement with ⟨error | value, after⟩
    · rw [hread] at hok
      cases hok
    · exact ⟨value, after, rfl, (read_of_depth_le (session 125) (Nat.zero_le _) .statement).1 _ _ hread⟩
  · have hfails : (match ((session 126).read .statement).1 with
        | .error error => error.cause = .tooDeep nestingLimit
        | .ok _ => false) = true := by decide +kernel
    rcases hread : (session 126).read .statement with ⟨error | value, after⟩
    · rw [hread] at hfails
      have hdeep : error.IsTooDeep := ⟨nestingLimit, by simpa using hfails⟩
      exact (read_of_depth_le (session 127) hmore .statement).2.2 error after hread hdeep
    · rw [hread] at hfails
      cases hfails

end Session

end ShellFrontend
