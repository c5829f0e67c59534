import ShellFrontend.Proofs.Segmentation

/-! # How high parsed trees are

The levels that may be open at once bound the height of a parsed tree only together with the
operators that are chained by their left operands: a chain opens one level, however long it is. For
chains of a given length the bound is attained.
-/

set_option autoImplicit false

namespace ShellFrontend

mutual

/-- The most expressions and statements that lie in one another. -/
def Expr.height : Expr → Nat
  | .identifier _ | .number _ | .boolean _ | .string _ | .command _ => 1
  | .unary _ right => right.height + 1
  | .binary left _ right => max left.height right.height + 1
  | .conditional condition consequence alternative =>
    max condition.height (max (blockHeight consequence) (alternativeHeight alternative)) + 1
  | .function _ body => blockHeight body + 1
  | .call _ arguments => argumentsHeight arguments + 1

def Stmt.height : Stmt → Nat
  | .binding _ value | .result value | .expression value => value.height + 1
  | .block body => blockHeight body + 1

def blockHeight : List Stmt → Nat
  | [] => 0
  | stmt :: stmts => max stmt.height (blockHeight stmts)

def alternativeHeight : Option (List Stmt) → Nat
  | none => 0
  | some body => blockHeight body

def argumentsHeight : List Expr → Nat
  | [] => 0
  | argument :: arguments => max argument.height (argumentsHeight arguments)

end

def Program.height (program : Program) : Nat :=
  blockHeight program.statements

/-- The operators of an expression that are chained by their left operands, from its own on. -/
def Expr.chain : Expr → Nat
  | .binary left _ _ => left.chain + 1
  | _ => 0

mutual

def Expr.longestChain : Expr → Nat
  | .identifier _ | .number _ | .boolean _ | .string _ | .command _ => 0
  | .unary _ right => right.longestChain
  | .binary left _ right => max (left.chain + 1) (max left.longestChain right.longestChain)
  | .conditional condition consequence alternative =>
    max condition.longestChain
      (max (blockLongestChain consequence) (alternativeLongestChain alternative))
  | .function _ body => blockLongestChain body
  | .call _ arguments => argumentsLongestChain arguments

def Stmt.longestChain : Stmt → Nat
  | .binding _ value | .result value | .expression value => value.longestChain
  | .block body => blockLongestChain body

def blockLongestChain : List Stmt → Nat
  | [] => 0
  | stmt :: stmts => max stmt.longestChain (blockLongestChain stmts)

def alternativeLongestChain : Option (List Stmt) → Nat
  | none => 0
  | some body => blockLongestChain body

def argumentsLongestChain : List Expr → Nat
  | [] => 0
  | argument :: arguments => max argument.longestChain (argumentsLongestChain arguments)

end

theorem Expr.chain_le_longestChain (expr : Expr) : expr.chain ≤ expr.longestChain := by
  cases expr with
  | binary left op right => exact Nat.le_max_left _ _
  | _ => exact Nat.zero_le _

theorem Expr.height_pos (expr : Expr) : 0 < expr.height := by
  cases expr <;> simp [height]

/-- The most that is within some levels: in each but the last an operand lies below a chain. -/
def heightWithin (chain : Nat) : Nat → Nat
  | 0 => 0
  | levels + 1 => levels * (chain + 1) + 1

theorem heightWithin_one (chain : Nat) : heightWithin chain 1 = 1 := by
  rw [heightWithin, Nat.zero_mul]

theorem heightWithin_add_two (chain levels : Nat) :
    heightWithin chain (levels + 2) = heightWithin chain (levels + 1) + chain + 1 := by
  rw [heightWithin, heightWithin, Nat.succ_mul]
  omega

theorem heightWithin_succ (chain levels : Nat) :
    heightWithin chain levels + 1 ≤ heightWithin chain (levels + 1) := by
  cases levels with
  | zero => exact Nat.le_of_eq (heightWithin_one chain).symm
  | succ levels =>
    rw [heightWithin_add_two]
    omega

theorem heightWithin_le (chain : Nat) {levels levels' : Nat} (h : levels ≤ levels') :
    heightWithin chain levels ≤ heightWithin chain levels' := by
  induction h with
  | refl => exact Nat.le_refl _
  | @step levels' _ ih => exact Nat.le_trans ih (Nat.le_of_succ_le (heightWithin_succ chain levels'))

/-- The operators of a chain lie above what is within the levels; they need one for their right
operands. -/
structure Expr.Fits (chain levels : Nat) (expr : Expr) : Prop where
  height_le : expr.height ≤ heightWithin chain levels + expr.chain + 1
  chain_eq : levels = 0 → expr.chain = 0

/-- An expression fits into the level that it opens. -/
theorem Expr.Fits.opened {chain levels : Nat} {expr : Expr} (h : expr.Fits chain levels)
    (hchain : expr.longestChain ≤ chain) : expr.height ≤ heightWithin chain (levels + 1) := by
  have hheight := h.height_le
  have hle := expr.chain_le_longestChain
  cases levels with
  | zero =>
    rw [h.chain_eq rfl] at hheight
    rw [heightWithin_one]
    exact hheight
  | succ levels =>
    rw [heightWithin_add_two]
    omega

theorem Expr.Fits.atom {chain levels : Nat} {expr : Expr} (hchain : expr.chain = 0)
    (hheight : expr.height ≤ heightWithin chain levels + 1) : expr.Fits chain levels :=
  ⟨by rwa [hchain], fun _ => hchain⟩

def Symbol.Fits (chain levels : Nat) : (symbol : Symbol) → symbol.Tree → Prop
  | .tier _, expr | .unary, expr | .operand, expr =>
    expr.longestChain ≤ chain → expr.Fits chain levels
  | .arguments, exprs =>
    argumentsLongestChain exprs ≤ chain → argumentsHeight exprs ≤ heightWithin chain levels
  | .alternative, other =>
    alternativeLongestChain other ≤ chain → alternativeHeight other ≤ heightWithin chain levels
  | .block, stmts => blockLongestChain stmts ≤ chain → blockHeight stmts ≤ heightWithin chain levels
  | .body, stmts =>
    blockLongestChain stmts ≤ chain → blockHeight stmts ≤ heightWithin chain levels + 1
  | .statement, stmt =>
    stmt.longestChain ≤ chain → stmt.height ≤ heightWithin chain levels + 1

theorem Derives.fits {chain : Nat} {symbol : Symbol} {levels : Nat} {phrase : List Token}
    {next : Kind} {tree : symbol.Tree} (h : Derives symbol levels phrase next tree) :
    symbol.Fits chain levels tree := by
  induction h with
  | tighter _ _ ih | tightest _ ih | operand _ ih => exact ih
  | @binary op token levels levels' phrase phrase' next left right _ _ _ ihleft ihright =>
    intro hchain
    simp only [Expr.longestChain, Nat.max_le] at hchain
    obtain ⟨-, hleft, hright⟩ := hchain
    have hlow := (ihleft hleft).height_le
    have hhigh := (ihright hright).opened hright
    have hwithin := heightWithin_le chain (Nat.le_max_left levels (levels' + 1))
    have hwithin' := heightWithin_le chain (Nat.le_max_right levels (levels' + 1))
    constructor
    · rw [Expr.height, Expr.chain]
      omega
    · omega
  | unary _ _ ih => exact fun hchain => .atom rfl (Nat.succ_le_succ ((ih hchain).opened hchain))
  | literal h =>
    intro _
    cases h <;> exact .atom rfl (Nat.le_add_left ..)
  | identifier | call => exact fun _ => .atom rfl (Nat.le_add_left ..)
  | callWith _ _ _ _ ih | function _ _ _ ih =>
    exact fun hchain => .atom rfl (Nat.succ_le_succ (ih hchain))
  | grouping _ _ _ ih =>
    intro hchain
    have hinner := (ih hchain).opened hchain
    exact ⟨by omega, by omega⟩
  | @conditional _ _ _ levels levels' levels'' _ _ _ _ _ _ _ _ _ _ _ _ _ ihcondition ihconsequence
      ihother =>
    intro hchain
    simp only [Expr.longestChain, Nat.max_le] at hchain
    obtain ⟨hcondition, hconsequence, hother⟩ := hchain
    have hlow := (ihcondition hcondition).opened hcondition
    have hlow' := ihconsequence hconsequence
    have hlow'' := ihother hother
    refine .atom rfl (Nat.succ_le_succ (Nat.max_le.2 ⟨?_, Nat.max_le.2 ⟨?_, ?_⟩⟩))
    · exact Nat.le_trans hlow (heightWithin_le chain (by omega))
    · exact Nat.le_trans hlow' (heightWithin_le chain (by omega))
    · exact Nat.le_trans hlow'' (heightWithin_le chain (by omega))
  | lastArgument _ ih =>
    intro hchain
    rw [argumentsLongestChain, argumentsLongestChain, Nat.max_zero] at hchain
    rw [argumentsHeight, argumentsHeight, Nat.max_zero]
    exact (ih hchain).opened hchain
  | @argument _ levels levels' _ _ _ _ _ _ _ _ ih ihtail =>
    intro hchain
    simp only [argumentsLongestChain, Nat.max_le] at hchain
    obtain ⟨hfirst, htail⟩ := hchain
    rw [argumentsHeight, Nat.max_le]
    constructor
    · exact Nat.le_trans ((ih hfirst).opened hfirst) (heightWithin_le chain (Nat.le_max_left ..))
    · exact Nat.le_trans (ihtail htail) (heightWithin_le chain (Nat.le_max_right ..))
  | noAlternative | emptyBody => exact fun _ => Nat.zero_le _
  | alternative _ _ ih | alternativeOnNextLine _ _ _ ih | emptyStatement _ _ ih => exact ih
  | block _ _ _ ih => exact fun hchain => Nat.le_trans (ih hchain) (heightWithin_succ ..)
  | @statements levels levels' _ _ _ _ _ _ _ ih ihtail =>
    intro hchain
    simp only [blockLongestChain, Nat.max_le] at hchain
    obtain ⟨hfirst, htail⟩ := hchain
    have hwithin := heightWithin_le chain (Nat.le_max_left levels levels')
    have hwithin' := heightWithin_le chain (Nat.le_max_right levels levels')
    rw [blockHeight, Nat.max_le]
    constructor
    · exact Nat.le_trans (ih hfirst) (Nat.succ_le_succ hwithin)
    · exact Nat.le_trans (ihtail htail) (Nat.succ_le_succ hwithin')
  | binding _ _ _ _ _ ih | result _ _ _ ih | expression _ _ ih =>
    exact fun hchain => Nat.succ_le_succ ((ih hchain).opened hchain)
  | blockStatement _ ih => exact fun hchain => Nat.succ_le_succ (ih hchain)

section sums

/-- An expression to which `true` is added again and again. -/
def Expr.sum (first : Expr) : Nat → Expr
  | 0 => first
  | operators + 1 => .binary (first.sum operators) .plus (.boolean true)

def sumTokens (first : List Token) : Nat → List Token
  | 0 => first
  | operators + 1 => sumTokens first operators ++ [.sample .plus, .sample .trueWord]

/-- Calls in one another, each the first operand of a sum. -/
def nestedSum (operators : Nat) : Nat → Expr
  | 0 => .boolean true
  | calls + 1 => (Expr.call "" [nestedSum operators calls]).sum operators

def nestedSumTokens (operators : Nat) : Nat → List Token
  | 0 => [.sample .trueWord]
  | calls + 1 => sumTokens (.sample .identifier :: .sample .openParen ::
      nestedSumTokens operators calls ++ [.sample .closeParen]) operators

theorem Expr.height_sum (first : Expr) (operators : Nat) :
    (first.sum operators).height = first.height + operators := by
  induction operators with
  | zero => rfl
  | succ operators ih =>
    have hpos := first.height_pos
    rw [sum, height, ih, height]
    omega

theorem Expr.chain_sum (first : Expr) (operators : Nat) :
    (first.sum operators).chain = first.chain + operators := by
  induction operators with
  | zero => rfl
  | succ operators ih =>
    rw [sum, chain, ih]
    rfl

theorem Expr.longestChain_sum (first : Expr) (operators : Nat) :
    (first.sum operators).longestChain = max first.longestChain (first.chain + operators) := by
  induction operators with
  | zero => exact (Nat.max_eq_left first.chain_le_longestChain).symm
  | succ operators ih =>
    rw [sum, longestChain, ih, chain_sum, longestChain]
    omega

theorem height_nestedSum (operators calls : Nat) :
    (nestedSum operators calls).height = calls * (operators + 1) + 1 := by
  induction calls with
  | zero => exact (congrArg (· + 1) (Nat.zero_mul _)).symm
  | succ calls ih =>
    rw [nestedSum, Expr.height_sum, Expr.height, argumentsHeight, argumentsHeight, ih, Nat.succ_mul]
    omega

theorem longestChain_nestedSum (operators calls : Nat) :
    (nestedSum operators (calls + 1)).longestChain = operators := by
  have hsucc : ∀ calls, (nestedSum operators (calls + 1)).longestChain =
      max (nestedSum operators calls).longestChain operators := by
    intro calls
    have hchain : (Expr.call "" [nestedSum operators calls]).chain = 0 := rfl
    rw [nestedSum, Expr.longestChain_sum, hchain, Nat.zero_add, Expr.longestChain,
      argumentsLongestChain, argumentsLongestChain, Nat.max_zero]
  induction calls with
  | zero => rw [hsucc, nestedSum, Expr.longestChain, Nat.zero_max]
  | succ calls ih => rw [hsucc, ih, Nat.max_self]

theorem Derives.sum {levels : Nat} {phrase : List Token} {first : Expr}
    (h : ∀ next, Derives (.tier 2) (levels + 1) phrase next first) (operators : Nat) (next : Kind) :
    Derives (.tier 2) (levels + 1) (sumTokens phrase operators) next (first.sum operators) := by
  induction operators generalizing next with
  | zero => exact h next
  | succ operators ih =>
    have hright := derives_sampleTier next (show 3 ≤ 4 by decide)
    have hsum := @Derives.binary .plus (.sample .plus) _ _ _ _ _ _ _ (ih .plus) rfl hright
    rwa [Nat.max_eq_left (Nat.le_add_left 1 levels)] at hsum

theorem derives_nestedSum (operators calls : Nat) (next : Kind) :
    Derives (.tier 2) calls (nestedSumTokens operators calls) next (nestedSum operators calls) := by
  induction calls generalizing next with
  | zero => exact derives_sampleTier next (by decide)
  | succ calls ih =>
    refine Derives.sum (fun next => ?_) operators next
    have hargument := (ih .closeParen).loosen (by decide) (Nat.zero_le 2)
    exact .loosen (.tightest (.operand (.callWith rfl rfl (.lastArgument hargument) rfl)))
      (Nat.le_refl 4) (by decide)

/-- One level more than there are calls is open in a nested sum. -/
theorem parse_nestedSum {calls : Nat} (h : calls < nestingLimit) (operators : Nat) (file : String) :
    (parse (nestedSumTokens operators calls) file).program =
        ⟨[.expression (nestedSum operators calls)]⟩ ∧
      (parse (nestedSumTokens operators calls) file).errors = [] := by
  have hsum := (derives_nestedSum operators calls .endOfInput).loosen (by decide) (Nat.zero_le 2)
  have hbody := Derives.statements (.expression hsum (.outside (.inr rfl))) .emptyBody
  rw [List.append_nil, List.append_nil, Nat.max_zero] at hbody
  exact parse_of_derivesWithin ⟨calls + 1, h, hbody⟩ file

end sums

/-- A parsed statement is at most so high, by the limit and its longest chain of operators, and for
each length of chains there is one that is as high. A chain opens no levels one in another, so that
its length and with it the height have no bound. -/
theorem parse_height (chain : Nat) :
    (∀ tokens file, ∀ stmt ∈ (parse tokens file).program.statements, stmt.longestChain ≤ chain →
        stmt.height ≤ (nestingLimit - 1) * (chain + 1) + 2) ∧
      ∃ tokens, ∀ file, (parse tokens file).errors = [] ∧
        ∃ stmt, (parse tokens file).program = ⟨[stmt]⟩ ∧ stmt.longestChain = chain ∧
          stmt.height = (nestingLimit - 1) * (chain + 1) + 2 := by
  constructor
  · intro tokens file stmt hstmt hchain
    obtain ⟨phrase, next, levels, hlevels, hderives⟩ := exists_derives_of_mem_statements hstmt
    have hheight := hderives.fits hchain
    exact Nat.le_trans hheight (Nat.succ_le_succ (heightWithin_le chain hlevels))
  · refine ⟨nestedSumTokens chain (nestingLimit - 1), fun file => ?_⟩
    obtain ⟨hprogram, herrors⟩ := parse_nestedSum (show nestingLimit - 1 < nestingLimit by decide)
      chain file
    refine ⟨herrors, _, hprogram, longestChain_nestedSum chain _, ?_⟩
    rw [Stmt.height, height_nestedSum]

/-- A call to which `true` is added 510 times opens two levels and is higher than four times the
limit. -/
theorem parse_height_of_long_sum :
    let parsed := parse (nestedSumTokens 510 1) "shell"
    parsed.errors = [] ∧ 4 * nestingLimit < parsed.program.height ∧
      ∃ stmt ∈ parsed.program.statements, 3 < stmt.longestChain := by
  intro parsed
  obtain ⟨hprogram, herrors⟩ := parse_nestedSum (show 1 < nestingLimit by decide) 510 "shell"
  have hmem : Stmt.expression (nestedSum 510 1) ∈ parsed.program.statements := by
    rw [hprogram]
    exact List.mem_singleton_self _
  have hheight : (Stmt.expression (nestedSum 510 1)).height = 513 := by
    rw [Stmt.height, height_nestedSum]
  refine ⟨herrors, ?_, _, hmem, ?_⟩
  · rw [hprogram, Program.height, blockHeight, blockHeight, hheight]
    decide
  · apply Nat.lt_of_not_le
    intro hchain
    have hle := (parse_height 3).1 _ _ _ hmem hchain
    rw [hheight] at hle
    exact absurd hle (by decide)

end ShellFrontend
