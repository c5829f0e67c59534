import ShellFrontend.Proofs.Phrases
import ShellFrontend.Proofs.Spelling

/-! # Spellings derive their trees

The tokens that spell a well-formed tree derive it in the grammar, and the levels that are open
at once in the derivation can be read off the tree.
-/

set_option autoImplicit false

namespace ShellFrontend

mutual

/-- The levels that an expression needs, its own included. -/
def Expr.levels : Expr → Nat
  | .identifier _ | .number _ | .boolean _ | .string _ | .command _ => 1
  | .unary _ right => 2 + right.levels
  | .binary left _ right => max (1 + left.levels) (2 + right.levels)
  | .conditional condition consequence alternative =>
    max (if condition.isParenthesized then condition.levels else 1 + condition.levels)
      (max (1 + (1 + statementsLevels consequence)) (alternativeLevels alternative))
  | .function _ body => 1 + (1 + statementsLevels body)
  | .call _ arguments => 1 + argumentsLevels arguments

def Stmt.levels : Stmt → Nat
  | .binding _ value | .result value | .expression value => value.levels
  | .block body => 1 + statementsLevels body

def statementsLevels : List Stmt → Nat
  | [] => 0
  | stmt :: stmts => max stmt.levels (statementsLevels stmts)

def alternativeLevels : Option (List Stmt) → Nat
  | none => 0
  | some body => 1 + (1 + statementsLevels body)

def argumentsLevels : List Expr → Nat
  | [] => 0
  | argument :: arguments => max argument.levels (argumentsLevels arguments)

end

def Spells (tokens : List Token) (spelling : List (Kind × String)) : Prop :=
  tokens.map Token.content = spelling

namespace Spells

variable {tokens : List Token} {spelling spelling' : List (Kind × String)}

theorem of_nil (h : Spells tokens []) : tokens = [] :=
  List.map_eq_nil_iff.1 h

theorem of_cons {kind : Kind} {text : String} (h : Spells tokens ((kind, text) :: spelling)) :
    ∃ token rest, tokens = token :: rest ∧ token.kind = kind ∧ token.text = text ∧
      Spells rest spelling := by
  obtain ⟨token, rest, rfl, hcontent, hrest⟩ := List.map_eq_cons_iff.1 h
  obtain ⟨hkind, htext⟩ := Prod.mk.inj hcontent
  exact ⟨token, rest, rfl, hkind, htext, hrest⟩

theorem of_singleton {kind : Kind} {text : String} (h : Spells tokens [(kind, text)]) :
    ∃ token, tokens = [token] ∧ token.kind = kind ∧ token.text = text := by
  obtain ⟨token, rest, rfl, hkind, htext, hrest⟩ := h.of_cons
  exact ⟨token, by rw [hrest.of_nil], hkind, htext⟩

theorem of_append (h : Spells tokens (spelling ++ spelling')) :
    ∃ first second, tokens = first ++ second ∧ Spells first spelling ∧ Spells second spelling' := by
  obtain ⟨first, second, rfl, hfirst, hsecond⟩ := List.map_eq_append_iff.1 h
  exact ⟨first, second, rfl, hfirst, hsecond⟩

theorem of_enclosed {opening closing : Kind} {c d : Char}
    (h : Spells tokens (sign opening c :: spelling ++ [sign closing d])) :
    ∃ first inner last, tokens = first :: inner ++ [last] ∧ first.kind = opening ∧
      last.kind = closing ∧ Spells inner spelling := by
  obtain ⟨first, rest, rfl, hfirst, -, hrest⟩ := of_cons h
  obtain ⟨inner, end', rfl, hinner, hend⟩ := hrest.of_append
  obtain ⟨last, rfl, hlast, -⟩ := hend.of_singleton
  exact ⟨first, inner, last, rfl, hfirst, hlast, hinner⟩

end Spells

theorem Names.of_spells {names : List String} (hne : names ≠ []) {tokens : List Token}
    (h : Spells tokens (namesSpelling names)) : Names tokens names := by
  induction names generalizing tokens with
  | nil => exact absurd rfl hne
  | cons name names ih =>
    cases names with
    | nil =>
      obtain ⟨token, rfl, hkind, rfl⟩ := h.of_singleton
      exact .last hkind
    | cons second names =>
      obtain ⟨token, tail, rfl, hkind, rfl, htail⟩ := h.of_cons
      obtain ⟨comma, rest, rfl, hcomma, -, hrest⟩ := htail.of_cons
      exact .more hkind hcomma (ih (List.cons_ne_nil _ _) hrest)

theorem Parameters.of_spells {names : List String} {tokens : List Token}
    (h : Spells tokens (sign .openParen '(' :: namesSpelling names ++ [sign .closeParen ')'])) :
    Parameters tokens names := by
  obtain ⟨opening, inner, closing, rfl, hopening, hclosing, h⟩ := h.of_enclosed
  cases names with
  | nil =>
    obtain rfl := h.of_nil
    exact .none hopening hclosing
  | cons name names => exact .some hopening (.of_spells (List.cons_ne_nil _ _) h) hclosing

namespace Derives

variable {levels : Nat} {phrase : List Token} {next : Kind} {expr : Expr}

theorem tier_of_operand (h : Derives .operand levels phrase next expr) {index : Nat}
    (hindex : index ≤ 4) : Derives (.tier index) levels phrase next expr :=
  loosen (.tightest (.operand h)) (Nat.le_refl 4) hindex

/-- An operand that begins with a parenthesis stands in parentheses. -/
theorem inner_of_openParen (h : Derives .operand levels phrase next expr)
    {kind : Kind} (hfirst : headKind kind phrase = .openParen) :
    ∃ opening inner closing levels', phrase = opening :: inner ++ [closing] ∧
      opening.kind = .openParen ∧ closing.kind = .closeParen ∧ levels = levels' + 1 ∧
      Derives (.tier 0) levels' inner .closeParen expr := by
  cases h with
  | grouping hopening h hclosing => exact ⟨_, _, _, _, rfl, hopening, hclosing, rfl, h⟩
  | @literal token _ _ h =>
    have hkind : token.kind = .openParen := hfirst
    have hrule := h.kind
    rw [hkind] at hrule
    cases hrule
  | identifier h => exact absurd (h.symm.trans hfirst) (by decide)
  | call h => exact absurd (h.symm.trans hfirst) (by decide)
  | callWith h => exact absurd (h.symm.trans hfirst) (by decide)
  | conditional h => exact absurd (h.symm.trans hfirst) (by decide)
  | function h => exact absurd (h.symm.trans hfirst) (by decide)

end Derives

theorem headKind_ne_openParen_of_ends {next : Kind} {stop : List Token} (h : Ends next stop) :
    headKind next stop ≠ .openParen := by
  cases h with
  | terminator h => simp [headKind, h]
  | outside h => rcases h with rfl | rfl <;> simp [headKind]

/-- A condition stands in parentheses, which are its own if it has some. -/
theorem condition_derives {condition : Expr}
    (hderives : ∀ {tokens}, Spells tokens condition.spelling → ∀ next : Kind, next ≠ .openParen →
      ∃ levels, levels + 1 = condition.levels ∧ Derives .operand levels tokens next condition)
    {tokens : List Token} (h : Spells tokens (if condition.isParenthesized then condition.spelling
      else sign .openParen '(' :: condition.spelling ++ [sign .closeParen ')'])) :
    ∃ opening inner closing levels, tokens = opening :: inner ++ [closing] ∧
      opening.kind = .openParen ∧ closing.kind = .closeParen ∧
      levels + 2 = (if condition.isParenthesized then condition.levels else 1 + condition.levels) ∧
      Derives (.tier 0) levels inner .closeParen condition := by
  by_cases hparens : condition.isParenthesized
  · rw [if_pos hparens] at h ⊢
    obtain ⟨levels, hlevels, hcondition⟩ := hderives h .openBrace (by decide)
    have hfirst : headKind .openBrace tokens = .openParen := by
      cases condition with
      | unary op right =>
        obtain ⟨opening, tail, rfl, hopening, -⟩ := Spells.of_cons h
        exact hopening
      | binary left op right =>
        obtain ⟨opening, tail, rfl, hopening, -⟩ := Spells.of_cons h
        exact hopening
      | _ => cases hparens
    obtain ⟨opening, inner, closing, levels', rfl, hopening, hclosing, rfl, hinner⟩ :=
      hcondition.inner_of_openParen hfirst
    exact ⟨opening, inner, closing, levels', rfl, hopening, hclosing, hlevels, hinner⟩
  · rw [if_neg hparens] at h ⊢
    obtain ⟨opening, inner, closing, rfl, hopening, hclosing, hinner⟩ := h.of_enclosed
    obtain ⟨levels, hlevels, hcondition⟩ := hderives hinner .closeParen (by decide)
    exact ⟨opening, inner, closing, levels, rfl, hopening, hclosing, by omega,
      hcondition.tier_of_operand (Nat.zero_le 4)⟩

mutual

theorem Expr.derives {expr : Expr} (hwf : expr.isWellFormed) {tokens : List Token}
    (h : Spells tokens expr.spelling) (next : Kind) (hnext : next ≠ .openParen) :
    ∃ levels, levels + 1 = expr.levels ∧ Derives .operand levels tokens next expr := by
  cases expr with
  | identifier name =>
    obtain ⟨token, rfl, hkind, rfl⟩ := h.of_singleton
    exact ⟨0, rfl, .identifier hkind hnext⟩
  | number value =>
    simp only [Expr.isWellFormed, Bool.and_eq_true, Bool.not_eq_true'] at hwf
    obtain ⟨token, rfl, hkind, htext⟩ := h.of_singleton
    have hread : Binary64.ofText? token.text.toList = some value := by
      rw [htext, String.toList_ofList, Binary64.ofText?_text hwf.1 hwf.2]
    exact ⟨0, rfl, .literal (.number hkind hread hwf.1)⟩
  | boolean value =>
    cases value with
    | true =>
      obtain ⟨token, rfl, hkind, -⟩ := h.of_singleton
      exact ⟨0, rfl, .literal (.yes hkind)⟩
    | false =>
      obtain ⟨token, rfl, hkind, -⟩ := h.of_singleton
      exact ⟨0, rfl, .literal (.no hkind)⟩
  | string text =>
    obtain ⟨token, rfl, hkind, rfl⟩ := h.of_singleton
    exact ⟨0, rfl, .literal (.string hkind)⟩
  | command text =>
    obtain ⟨token, rfl, hkind, rfl⟩ := h.of_singleton
    exact ⟨0, rfl, .literal (.command hkind)⟩
  | unary op right =>
    have hwf : right.isWellFormed := hwf
    obtain ⟨opening, inner, closing, rfl, hopening, hclosing, hinner⟩ := Spells.of_enclosed h
    obtain ⟨token, tail, rfl, hop, -, htail⟩ := hinner.of_cons
    obtain ⟨levels, hlevels, hright⟩ := Expr.derives hwf htail .closeParen (by decide)
    have hunary : Derives (.tier 0) (levels + 1) (token :: tail) .closeParen (.unary op right) :=
      .loosen (.tightest (.unary hop.symm (.operand hright))) (Nat.le_refl 4) (Nat.zero_le 4)
    refine ⟨levels + 1 + 1, ?_, .grouping hopening hunary hclosing⟩
    rw [Expr.levels]
    omega
  | binary left op right =>
    simp only [Expr.isWellFormed, Bool.and_eq_true] at hwf
    have hinner : Spells tokens (sign .openParen '(' ::
        (left.spelling ++ (op.kind, String.ofList op.symbol) :: right.spelling) ++
          [sign .closeParen ')']) := h
    obtain ⟨opening, inner, closing, rfl, hopening, hclosing, hinner⟩ := hinner.of_enclosed
    obtain ⟨first, second, rfl, hfirst, hsecond⟩ := hinner.of_append
    obtain ⟨token, tail, rfl, hop, -, htail⟩ := hsecond.of_cons
    have hne : token.kind ≠ .openParen := by
      rw [hop]
      cases op <;> decide
    have htier := op.tier_lt
    obtain ⟨levels, hlevels, hleft⟩ := Expr.derives hwf.1 hfirst token.kind hne
    obtain ⟨levels', hlevels', hright⟩ := Expr.derives hwf.2 htail .closeParen (by decide)
    have hbinary : Derives (.tier 0) (max levels (levels' + 1)) (first ++ token :: tail) .closeParen
        (.binary left op right) :=
      .loosen (.binary (hleft.tier_of_operand (by omega)) hop.symm
        (hright.tier_of_operand (by omega))) (by omega) (Nat.zero_le _)
    refine ⟨max levels (levels' + 1) + 1, ?_, .grouping hopening hbinary hclosing⟩
    rw [Expr.levels]
    omega
  | conditional condition consequence alternative =>
    simp only [Expr.isWellFormed, Bool.and_eq_true] at hwf
    have h : Spells tokens ((.ifWord, "if") :: ((if condition.isParenthesized then condition.spelling
        else sign .openParen '(' :: condition.spelling ++ [sign .closeParen ')']) ++
        (blockSpelling consequence ++ alternativeSpelling alternative))) := by
      simpa [Expr.spelling] using h
    obtain ⟨word, tail, rfl, hword, -, h⟩ := h.of_cons
    obtain ⟨first, blocks, rfl, hfirst, h⟩ := h.of_append
    obtain ⟨second, third, rfl, hsecond, hthird⟩ := h.of_append
    obtain ⟨opening, inner, closing, levels, rfl, hopening, hclosing, hlevels, hcondition⟩ :=
      condition_derives (fun h next hnext => Expr.derives hwf.1.1 h next hnext) hfirst
    have hconsequence := block_derives hwf.1.2 hsecond (headKind next third)
    obtain ⟨levels', hlevels', hother⟩ := alternative_derives hwf.2 hthird next
    have hconditional := Derives.conditional hword hopening hcondition hclosing hconsequence hother
    refine ⟨max (levels + 1) (max (1 + statementsLevels consequence) levels'), ?_, ?_⟩
    · rw [Expr.levels, ← hlevels]
      omega
    · simpa using hconditional
  | function parameters body =>
    simp only [Expr.isWellFormed, Bool.and_eq_true] at hwf
    have h : Spells tokens ((.fnWord, "fn") :: (sign .openParen '(' :: namesSpelling parameters ++
        [sign .closeParen ')'] ++ blockSpelling body)) := by
      simpa [Expr.spelling] using h
    obtain ⟨word, tail, rfl, hword, -, htail⟩ := h.of_cons
    obtain ⟨first, second, rfl, hfirst, hsecond⟩ := htail.of_append
    have hbody := block_derives hwf.2 hsecond next
    refine ⟨1 + statementsLevels body, ?_, .function hword (.of_spells hfirst) hbody⟩
    rw [Expr.levels]
    omega
  | call callee arguments =>
    simp only [Expr.isWellFormed, Bool.and_eq_true] at hwf
    obtain ⟨name, tail, rfl, hname, rfl, htail⟩ := Spells.of_cons h
    obtain ⟨opening, inner, closing, rfl, hopening, hclosing, hinner⟩ := htail.of_enclosed
    cases arguments with
    | nil =>
      obtain rfl := hinner.of_nil
      exact ⟨0, rfl, .call hname hopening hclosing⟩
    | cons argument arguments =>
      have harguments := arguments_derive hwf.2 hinner
      refine ⟨argumentsLevels (argument :: arguments), ?_, .callWith hname hopening harguments hclosing⟩
      rw [Expr.levels, Nat.add_comm]
termination_by sizeOf expr

theorem Stmt.derives {stmt : Stmt} (hwf : stmt.isWellFormed) {tokens : List Token}
    (h : Spells tokens stmt.spelling) {next : Kind} {stop : List Token} (hstop : Ends next stop) :
    Derives .statement stmt.levels (tokens ++ stop) next stmt ∨
      Derives .statement stmt.levels tokens (headKind next stop) stmt := by
  have hne := headKind_ne_openParen_of_ends hstop
  cases stmt with
  | binding name value =>
    simp only [Stmt.isWellFormed, Bool.and_eq_true] at hwf
    obtain ⟨word, tail, rfl, hword, -, h⟩ := Spells.of_cons h
    obtain ⟨token, tail, rfl, hname, rfl, htail⟩ := h.of_cons
    obtain ⟨assign, phrase, rfl, hassign, -, hphrase⟩ := htail.of_cons
    obtain ⟨levels, hlevels, hvalue⟩ := Expr.derives hwf.2 hphrase _ hne
    left
    rw [Stmt.levels, ← hlevels]
    exact .binding hword hname hassign (hvalue.tier_of_operand (Nat.zero_le 4)) hstop
  | result value =>
    obtain ⟨word, tail, rfl, hword, -, h⟩ := Spells.of_cons h
    obtain ⟨levels, hlevels, hvalue⟩ := Expr.derives hwf h _ hne
    left
    rw [Stmt.levels, ← hlevels]
    exact .result hword (hvalue.tier_of_operand (Nat.zero_le 4)) hstop
  | expression value =>
    obtain ⟨levels, hlevels, hvalue⟩ := Expr.derives hwf h _ hne
    left
    rw [Stmt.levels, ← hlevels]
    exact .expression (hvalue.tier_of_operand (Nat.zero_le 4)) hstop
  | block body => exact .inr (.blockStatement (block_derives hwf h _))
termination_by sizeOf stmt

theorem block_derives {body : List Stmt} (hwf : blockIsWellFormed body) {tokens : List Token}
    (h : Spells tokens (blockSpelling body)) (next : Kind) :
    Derives .block (1 + statementsLevels body) tokens next body := by
  rw [Nat.add_comm]
  cases body with
  | nil =>
    obtain ⟨opening, tail, rfl, hopening, -, htail⟩ := Spells.of_cons h
    obtain ⟨closing, rfl, hclosing, -⟩ := htail.of_singleton
    exact @Derives.block opening closing 0 [] next [] hopening .emptyBody hclosing
  | cons stmt stmts =>
    have hinner : Spells tokens (sign .openBrace '\x7b' :: (stmt.spelling ++ furtherSpelling stmts) ++
        [sign .closeBrace '\x7d']) := h
    obtain ⟨opening, inner, closing, rfl, hopening, hclosing, hinner⟩ := hinner.of_enclosed
    exact .block hopening (body_derives hwf hinner) hclosing
termination_by sizeOf body

theorem body_derives {stmt : Stmt} {stmts : List Stmt} (hwf : blockIsWellFormed (stmt :: stmts))
    {tokens : List Token} (h : Spells tokens (stmt.spelling ++ furtherSpelling stmts)) :
    Derives .body (statementsLevels (stmt :: stmts)) tokens .closeBrace (stmt :: stmts) := by
  simp only [blockIsWellFormed, Bool.and_eq_true] at hwf
  obtain ⟨first, second, rfl, hfirst, hsecond⟩ := h.of_append
  cases stmts with
  | nil =>
    obtain rfl := hsecond.of_nil
    have hstmt : Derives .statement stmt.levels first .closeBrace stmt := by
      simpa [headKind] using Stmt.derives hwf.1 hfirst (.outside (.inl rfl) : Ends .closeBrace [])
    exact .statements hstmt .emptyBody
  | cons following stmts =>
    obtain ⟨stop, rest, rfl, hstop, -, hrest⟩ := Spells.of_cons hsecond
    have htail := body_derives hwf.2 hrest
    rcases Stmt.derives hwf.1 hfirst (.terminator hstop) with hstmt | hstmt
    · have hbody := Derives.statements hstmt htail
      rwa [List.append_assoc] at hbody
    · exact .statements hstmt (.emptyStatement hstop htail)
termination_by sizeOf stmt + sizeOf stmts

theorem alternative_derives {alternative : Option (List Stmt)}
    (hwf : alternativeIsWellFormed alternative) {tokens : List Token}
    (h : Spells tokens (alternativeSpelling alternative)) (next : Kind) :
    ∃ levels, levels + 1 = max 1 (alternativeLevels alternative) ∧
      Derives .alternative levels tokens next alternative := by
  cases alternative with
  | none =>
    obtain rfl := h.of_nil
    exact ⟨0, rfl, .noAlternative⟩
  | some body =>
    obtain ⟨word, tail, rfl, hword, -, htail⟩ := Spells.of_cons h
    refine ⟨1 + statementsLevels body, ?_, .alternative hword (block_derives hwf htail next)⟩
    rw [alternativeLevels]
    omega
termination_by sizeOf alternative

theorem arguments_derive {argument : Expr} {arguments : List Expr}
    (hwf : argumentsAreWellFormed (argument :: arguments)) {tokens : List Token}
    (h : Spells tokens (argument.spelling ++ furtherArgumentsSpelling arguments)) :
    Derives .arguments (argumentsLevels (argument :: arguments)) tokens .closeParen
      (argument :: arguments) := by
  simp only [argumentsAreWellFormed, Bool.and_eq_true] at hwf
  obtain ⟨first, second, rfl, hfirst, hsecond⟩ := h.of_append
  cases arguments with
  | nil =>
    obtain rfl := hsecond.of_nil
    obtain ⟨levels, hlevels, hargument⟩ := Expr.derives hwf.1 hfirst .closeParen (by decide)
    rw [argumentsLevels, argumentsLevels, Nat.max_zero, ← hlevels, List.append_nil]
    exact .lastArgument (hargument.tier_of_operand (Nat.zero_le 4))
  | cons following arguments =>
    obtain ⟨comma, rest, rfl, hcomma, -, hrest⟩ := Spells.of_cons hsecond
    obtain ⟨levels, hlevels, hargument⟩ := Expr.derives hwf.1 hfirst .comma (by decide)
    have htail := arguments_derive hwf.2 hrest
    rw [argumentsLevels, ← hlevels]
    exact .argument (hargument.tier_of_operand (Nat.zero_le 4)) hcomma htail
termination_by sizeOf (argument :: arguments)

end

end ShellFrontend
