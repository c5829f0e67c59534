import ShellFrontend.Proofs.RoundTrip
import ShellFrontend.Tree.Same

/-! # Renderings tell programs apart

A rendering is read back by a parser that has levels enough, however deep the tree is. So two
well-formed programs have one rendering just if they are one program, and just if they are the
same program to a comparison of their nodes.
-/

set_option autoImplicit false

namespace ShellFrontend

theorem Stmt.levels_le {stmt : Stmt} {stmts : List Stmt} (h : stmt ∈ stmts) :
    stmt.levels ≤ statementsLevels stmts := by
  induction stmts with
  | nil => cases h
  | cons first stmts ih =>
    rw [statementsLevels]
    rcases List.mem_cons.1 h with rfl | h
    · exact Nat.le_max_left _ _
    · exact Nat.le_trans (ih h) (Nat.le_max_right _ _)

/-- With levels enough, the rendering is read back whole. -/
theorem Program.results_of_render {program : Program} (hwf : program.isWellFormed) {free : Nat}
    (hfree : statementsLevels program.statements ≤ free) (file : String) (final : Position) :
    (Piece.results (pieces (statement .standard (.ofLevels .standard free)) final
      (tokenize program.render file))).1 = program.statements := by
  obtain ⟨tokens, position, heq, hspells⟩ := tokenize_render hwf file
  obtain ⟨hstmts, -⟩ := results_of_lines hwf hspells free final position
  rw [heq, hstmts]
  apply List.filter_eq_self.2
  intro stmt hstmt
  exact decide_eq_true (Nat.le_trans (Stmt.levels_le hstmt) hfree)

theorem Program.eq_of_render {p q : Program} (hp : p.isWellFormed) (hq : q.isWellFormed)
    (h : p.render = q.render) : p = q := by
  obtain ⟨free, hpfree, hqfree⟩ : ∃ free, statementsLevels p.statements ≤ free ∧
      statementsLevels q.statements ≤ free := ⟨_, Nat.le_max_left _ _, Nat.le_max_right _ _⟩
  have hleft := results_of_render hp hpfree "" ⟨0, ""⟩
  have hright := results_of_render hq hqfree "" ⟨0, ""⟩
  rw [h] at hleft
  have hstmts : p.statements = q.statements := hleft.symm.trans hright
  obtain ⟨stmts⟩ := p
  exact congrArg Program.mk hstmts

/-- Finite numbers without a sign are the same only if they are one. -/
theorem Binary64.same_iff {x y : Binary64} (hx : x.isFinite && !x.negative)
    (hy : y.isFinite && !y.negative) : x.same y ↔ x = y := by
  simp only [Bool.and_eq_true, Bool.not_eq_true', isFinite, decide_eq_true_eq] at hx hy
  obtain ⟨sign, magnitude, _⟩ := x
  obtain ⟨sign', magnitude', _⟩ := y
  obtain ⟨hx, rfl⟩ := hx
  obtain ⟨hy, rfl⟩ := hy
  have hnumber : ¬ infinite < magnitude := Nat.not_lt.2 (Nat.le_of_lt hx)
  have hnumber' : ¬ infinite < magnitude' := Nat.not_lt.2 (Nat.le_of_lt hy)
  simp [same, isNaN, hnumber, hnumber']

mutual

theorem Expr.same_iff {a b : Expr} (ha : a.isWellFormed) (hb : b.isWellFormed) :
    a.same b ↔ a = b := by
  cases a with
  | identifier name => cases b <;> simp [Expr.same]
  | number value =>
    cases b with
    | number value' => rw [Expr.same, Expr.number.injEq]; exact Binary64.same_iff ha hb
    | _ => simp [Expr.same]
  | boolean value => cases b <;> simp [Expr.same]
  | string text => cases b <;> simp [Expr.same]
  | command text => cases b <;> simp [Expr.same]
  | unary op right =>
    cases b with
    | unary op' right' =>
      have hright := @Expr.same_iff right right' ha hb
      simp only [Expr.same, Bool.and_eq_true, decide_eq_true_eq, hright, Expr.unary.injEq]
    | _ => simp [Expr.same]
  | binary left op right =>
    cases b with
    | binary left' op' right' =>
      simp only [Expr.isWellFormed, Bool.and_eq_true] at ha hb
      have hleft := Expr.same_iff ha.1 hb.1
      have hright := Expr.same_iff ha.2 hb.2
      simp only [Expr.same, Bool.and_eq_true, decide_eq_true_eq, hleft, hright, Expr.binary.injEq,
        and_assoc]
    | _ => simp [Expr.same]
  | conditional condition consequence alternative =>
    cases b with
    | conditional condition' consequence' alternative' =>
      simp only [Expr.isWellFormed, Bool.and_eq_true] at ha hb
      have hcondition := Expr.same_iff ha.1.1 hb.1.1
      have hconsequence := sameBlock_iff ha.1.2 hb.1.2
      have halternative := sameAlternative_iff ha.2 hb.2
      simp only [Expr.same, Bool.and_eq_true, hcondition, hconsequence, halternative,
        Expr.conditional.injEq, and_assoc]
    | _ => simp [Expr.same]
  | function parameters body =>
    cases b with
    | function parameters' body' =>
      simp only [Expr.isWellFormed, Bool.and_eq_true] at ha hb
      have hbody := sameBlock_iff ha.2 hb.2
      simp only [Expr.same, Bool.and_eq_true, decide_eq_true_eq, hbody, Expr.function.injEq]
    | _ => simp [Expr.same]
  | call callee arguments =>
    cases b with
    | call callee' arguments' =>
      simp only [Expr.isWellFormed, Bool.and_eq_true] at ha hb
      have harguments := sameArguments_iff ha.2 hb.2
      simp only [Expr.same, Bool.and_eq_true, decide_eq_true_eq, harguments, Expr.call.injEq]
    | _ => simp [Expr.same]
termination_by sizeOf a

theorem Stmt.same_iff {a b : Stmt} (ha : a.isWellFormed) (hb : b.isWellFormed) :
    a.same b ↔ a = b := by
  cases a with
  | binding name value =>
    cases b with
    | binding name' value' =>
      simp only [Stmt.isWellFormed, Bool.and_eq_true] at ha hb
      have hvalue := Expr.same_iff ha.2 hb.2
      simp only [Stmt.same, Bool.and_eq_true, decide_eq_true_eq, hvalue, Stmt.binding.injEq]
    | _ => simp [Stmt.same]
  | result value =>
    cases b with
    | result value' =>
      have hvalue := @Expr.same_iff value value' ha hb
      rw [Stmt.same, hvalue, Stmt.result.injEq]
    | _ => simp [Stmt.same]
  | expression value =>
    cases b with
    | expression value' =>
      have hvalue := @Expr.same_iff value value' ha hb
      rw [Stmt.same, hvalue, Stmt.expression.injEq]
    | _ => simp [Stmt.same]
  | block body =>
    cases b with
    | block body' =>
      have hbody := @sameBlock_iff body body' ha hb
      rw [Stmt.same, hbody, Stmt.block.injEq]
    | _ => simp [Stmt.same]
termination_by sizeOf a

theorem sameBlock_iff {a b : List Stmt} (ha : blockIsWellFormed a) (hb : blockIsWellFormed b) :
    sameBlock a b ↔ a = b := by
  cases a with
  | nil => cases b <;> simp [sameBlock]
  | cons stmt stmts =>
    cases b with
    | nil => simp [sameBlock]
    | cons stmt' stmts' =>
      simp only [blockIsWellFormed, Bool.and_eq_true] at ha hb
      have hstmt := Stmt.same_iff ha.1 hb.1
      have hstmts := sameBlock_iff ha.2 hb.2
      simp only [sameBlock, Bool.and_eq_true, hstmt, hstmts, List.cons.injEq]
termination_by sizeOf a

theorem sameAlternative_iff {a b : Option (List Stmt)} (ha : alternativeIsWellFormed a)
    (hb : alternativeIsWellFormed b) : sameAlternative a b ↔ a = b := by
  cases a with
  | none => cases b <;> simp [sameAlternative]
  | some body =>
    cases b with
    | none => simp [sameAlternative]
    | some body' =>
      have hbody := @sameBlock_iff body body' ha hb
      rw [sameAlternative, hbody, Option.some.injEq]
termination_by sizeOf a

theorem sameArguments_iff {a b : List Expr} (ha : argumentsAreWellFormed a)
    (hb : argumentsAreWellFormed b) : sameArguments a b ↔ a = b := by
  cases a with
  | nil => cases b <;> simp [sameArguments]
  | cons argument arguments =>
    cases b with
    | nil => simp [sameArguments]
    | cons argument' arguments' =>
      simp only [argumentsAreWellFormed, Bool.and_eq_true] at ha hb
      have hargument := Expr.same_iff ha.1 hb.1
      have harguments := sameArguments_iff ha.2 hb.2
      simp only [sameArguments, Bool.and_eq_true, hargument, harguments, List.cons.injEq]
termination_by sizeOf a

end

/-- Two well-formed programs have one rendering just if they are one program. -/
theorem Program.render_eq_iff {p q : Program} (hp : p.isWellFormed) (hq : q.isWellFormed) :
    (p.render = q.render ↔ p = q) ∧ (p.render = q.render ↔ p.same q) := by
  have hrender : p.render = q.render ↔ p = q := by
    constructor
    · exact Program.eq_of_render hp hq
    · intro h
      rw [h]
  have hsame : p.same q ↔ p = q := by
    obtain ⟨stmts⟩ := p
    obtain ⟨stmts'⟩ := q
    rw [Program.mk.injEq]
    exact sameBlock_iff hp hq
  exact ⟨hrender, hrender.trans hsame.symm⟩

/-- Both programs need more levels than there are, and differ in the text of a command. -/
theorem Program.render_ne_of_deep_negation :
    let deep : String → Program := fun text =>
      ⟨[.expression (Nat.repeat (.unary .not) 64 (.command text))]⟩
    let p := deep "a; b"
    let q := deep "a\n"
    p.isWellFormed ∧ q.isWellFormed ∧ nestingLimit < statementsLevels p.statements ∧
      p.render ≠ q.render := by
  intro deep p q
  have hp : p.isWellFormed := by decide
  have hq : q.isWellFormed := by decide
  have hlevels : nestingLimit < statementsLevels p.statements := by decide
  have hne : ¬ p.same q := by decide
  exact ⟨hp, hq, hlevels, mt (Program.render_eq_iff hp hq).2.1 hne⟩

end ShellFrontend
