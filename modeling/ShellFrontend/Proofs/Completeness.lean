import ShellFrontend.Proofs.Phrases

/-! # Derived phrases are parsed

Where a phrase of the grammar stands in front of something that does not continue it, its
parser gives the tree of the derivation if as many levels are free as the derivation opens, and
runs out of levels otherwise.
-/

set_option autoImplicit false

namespace ShellFrontend

open ShellFrontend.Parser (Decides)

/-- The parser of a nonterminal does on a phrase and any tokens behind it what a derivation says.
For a tier of operators the parser is the loop that goes on behind the phrase, for a body and for
arguments also the loop over the items. -/
def Accepts (final : Position) : (symbol : Symbol) → Nat → List Token → Kind → symbol.Tree → Prop
  | .tier index, levels, phrase, next, tree =>
    ∀ (free : Nat) (floor : Power) (rest : List Token) (enough : Prop) (value : Expr)
      (left : List Token), floor.rank ≤ index → operatorRank next ≤ index + 1 →
      Follows final next rest →
      (Expression.climb (.ofLevels .standard free) floor tree).Decides final rest enough value left →
      (expression .standard (.ofLevels .standard free) floor).Decides final (phrase ++ rest)
        (levels ≤ free ∧ enough) value left
  | .unary, levels, phrase, next, tree | .operand, levels, phrase, next, tree =>
    ∀ (free : Nat) (rest : List Token), Follows final next rest →
      (operand .standard (.ofLevels .standard free)).Decides final (phrase ++ rest)
        (levels ≤ free) tree rest
  | .arguments, levels, phrase, next, tree =>
    ∀ (what : String) (free : Nat) (closing : Token) (rest : List Token),
      closing.kind = .closeParen → next = .closeParen →
      (CommaList.items what ((Layer.ofLevels .standard free).expr .lowest)).Decides final
        (phrase ++ closing :: rest) (levels ≤ free) tree rest
  | .alternative, levels, phrase, next, tree =>
    ∀ (free : Nat) (rest : List Token), Follows final next rest →
      (Operand.alternative (.ofLevels .standard free)).Decides final (phrase ++ rest)
        (levels ≤ free) tree rest
  | .block, levels, phrase, _, tree =>
    ∀ (free : Nat) (rest : List Token),
      (Layer.ofLevels .standard free).block.Decides final (phrase ++ rest) (levels ≤ free) tree rest
  | .body, levels, phrase, next, tree =>
    ∀ (free : Nat) (closing : Token) (rest : List Token), closing.kind = .closeBrace →
      next = .closeBrace → ∃ entries, entries.filterMap id = tree ∧
        (Parser.many (Block.turn .standard (.ofLevels .standard free))).Decides final
          (phrase ++ closing :: rest) (levels ≤ free) entries rest
  | .statement, levels, phrase, next, tree =>
    ∀ (free : Nat) (rest : List Token), (frontToken final rest).kind = next → next ≠ .elseWord →
      (statement .standard (.ofLevels .standard free)).Decides final (phrase ++ rest)
        (levels ≤ free) tree rest

variable {final : Position} {levels levels' : Nat} {phrase rest stop : List Token} {next : Kind}

theorem Accepts.expr {value : Expr} (h : Accepts final (.tier 0) levels phrase next value)
    (hrank : operatorRank next = 0) (hrest : Follows final next rest) (free : Nat) :
    ((Layer.ofLevels .standard free).expr .lowest).Decides final (phrase ++ rest)
      (levels + 1 ≤ free) value rest := by
  refine Layer.expr_decides (fun free => ?_) free
  have hstop : (Expression.climb (.ofLevels .standard free) .lowest value).Decides final rest True
      value rest := by
    refine Decides.of_ok (Expression.run_climb_stop ?_)
    rw [hrest.front, hrank]
    exact Nat.zero_le _
  exact (h free .lowest rest True value rest (Nat.le_refl 0) (by omega) hrest hstop).congr
    (iff_of_eq (and_true _))

namespace Expression

/-- An operator is read with its right operand, which ends in front of any operator that does not
bind more strongly. -/
theorem operation_decides {op : BinaryOperator} {token : Token} {right : Expr}
    (hop : op.kind = token.kind)
    (h : Accepts final (.tier (op.tier + 1)) levels phrase next right)
    (hrank : operatorRank next ≤ op.tier + 1) (hrest : Follows final next rest) (free : Nat) :
    (operation (.ofLevels .standard free) op.power).Decides final (token :: (phrase ++ rest))
      (levels + 1 ≤ free) (op, right) rest := by
  have haccept : BinaryOperator.ofKind? token.kind = some op :=
    BinaryOperator.ofKind?_eq_some_iff.2 hop
  refine Decides.after (Advancing.run_accept_of_some haccept _ _) (Decides.bind_pure ?_ _)
  refine Layer.expr_decides (fun free => ?_) free
  have hfloor := op.rank_power
  have hstop : (climb (.ofLevels .standard free) op.power right).Decides final rest True right
      rest := by
    refine Decides.of_ok (run_climb_stop ?_)
    rw [hrest.front]
    omega
  exact (h free op.power rest True right rest (by omega) (by omega) hrest hstop).congr
    (iff_of_eq (and_true _))

end Expression

theorem Accepts.binary {op : BinaryOperator} {token : Token} {phrase' : List Token}
    {left right : Expr} (hop : op.kind = token.kind)
    (hleft : Accepts final (.tier op.tier) levels phrase token.kind left)
    (hright : Accepts final (.tier (op.tier + 1)) levels' phrase' next right) :
    Accepts final (.tier op.tier) (max levels (levels' + 1)) (phrase ++ token :: phrase') next
      (.binary left op right) := by
  intro free floor rest enough value result hfloor hrank hrest hclimb
  have hoperation := Expression.operation_decides hop hright hrank hrest free
  have hmore : (Expression.climb (.ofLevels .standard free) floor left).Decides final
      (token :: (phrase' ++ rest)) (levels' + 1 ≤ free ∧ enough) value result :=
    (hoperation.bind hclimb).of_run_eq (Expression.run_climb_more op hfloor hop _)
  have hfollows : Follows final token.kind (token :: (phrase' ++ rest)) := by
    refine .of_ne_terminator rfl ?_ ?_ <;> rw [← hop] <;> cases op <;> decide
  have hranks : operatorRank token.kind ≤ op.tier + 1 := by
    rw [← hop]
    exact Nat.le_of_eq (operatorRank_kind op)
  rw [List.append_assoc, List.cons_append]
  apply (hleft free floor _ _ value result hfloor hranks hfollows hmore).congr
  rw [Nat.max_le, and_assoc]

theorem Accepts.tightest {value : Expr} (h : Accepts final .unary levels phrase next value) :
    Accepts final (.tier 4) levels phrase next value := by
  intro free floor rest enough result left _ _ hrest hclimb
  exact (h free rest hrest).bind hclimb

namespace Operand

theorem unary_accepts {op : UnaryOperator} {token : Token} {right : Expr}
    (hop : op.kind = token.kind) (h : Accepts final .unary levels phrase next right) :
    Accepts final .unary (levels + 1) (token :: phrase) next (.unary op right) := by
  intro free rest hrest
  have hrule : Rules.standard.operand token.kind = some .unary := by
    rw [← hop]
    cases op <;> rfl
  have haccept : UnaryOperator.ofKind? token.kind = some op :=
    UnaryOperator.ofKind?_eq_some_iff.2 hop
  refine Decides.of_run_eq ?_ (run_operand_of_rule hrule)
  refine Decides.after (Advancing.run_accept_of_some haccept _ _) (Decides.bind_pure ?_ _)
  refine Layer.expr_decides (fun free => ?_) free
  have hstop : (Expression.climb (.ofLevels .standard free) .unary right).Decides final rest True
      right rest := Decides.of_ok (Expression.run_climb_stop (operatorRank_le _))
  exact ((h free rest hrest).bind hstop).congr (iff_of_eq (and_true _))

theorem literal_accepts {token : Token} {value : Expr} (h : Literal token value) :
    Accepts final .operand 0 [token] next value := by
  intro free rest _
  have hrun : (operand .standard (.ofLevels .standard free)).run final (token :: rest) =
      .ok value rest [] := run_operand_of_literal h.kind h
  exact (Decides.of_ok hrun).congr (iff_of_true trivial (Nat.zero_le _))

theorem identifier_accepts {name : Token} (h : name.kind = .identifier) (hnext : next ≠ .openParen) :
    Accepts final .operand 0 [name] next (.identifier name.text) := by
  intro free rest hrest
  have hrule : Rules.standard.operand name.kind = some .identifier := by
    rw [h]
    rfl
  have hrun : (operand .standard (.ofLevels .standard free)).run final (name :: rest) =
      .ok (.identifier name.text) rest [] := by
    apply run_operand_of_identifier hrule h
    rw [hrest.front]
    exact hnext
  exact (Decides.of_ok hrun).congr (iff_of_true trivial (Nat.zero_le _))

theorem call_decides {name opening : Token} {arguments : List Expr} {tokens : List Token}
    {enough : Prop} {free : Nat} (h : name.kind = .identifier) (hopening : opening.kind = .openParen)
    (harguments : (commaList "argument list" ((Layer.ofLevels .standard free).expr .lowest)).Decides
      final (opening :: tokens) enough arguments rest) :
    (operand .standard (.ofLevels .standard free)).Decides final (name :: opening :: tokens) enough
      (.call name.text arguments) rest := by
  have hrule : Rules.standard.operand name.kind = some .identifier := by
    rw [h]
    rfl
  refine Decides.of_run_eq ?_ (run_operand_of_rule hrule)
  refine Decides.after (Advancing.run_token_of_kind h _ _) ((harguments.bind_pure _).of_run_eq ?_)
  rw [Parser.run_select, frontToken_cons, hopening]

theorem call_accepts {name opening closing : Token} (h : name.kind = .identifier)
    (hopening : opening.kind = .openParen) (hclosing : closing.kind = .closeParen) :
    Accepts final .operand 0 [name, opening, closing] next (.call name.text []) := by
  intro free rest _
  have harguments := Decides.of_ok (@CommaList.run_commaList_empty _ "argument list"
    ((Layer.ofLevels .standard free).expr .lowest) final _ _ hopening hclosing rest)
  exact (call_decides h hopening harguments).congr (iff_of_true trivial (Nat.zero_le _))

theorem callWith_accepts {name opening closing : Token} {arguments : List Expr}
    (h : name.kind = .identifier) (hopening : opening.kind = .openParen)
    (hstarts : Symbol.arguments.Starts phrase)
    (harguments : Accepts final .arguments levels phrase .closeParen arguments)
    (hclosing : closing.kind = .closeParen) :
    Accepts final .operand levels (name :: opening :: phrase ++ [closing]) next
      (.call name.text arguments) := by
  intro free rest _
  have hitems := harguments "argument list" free closing rest hclosing rfl
  have hfront : (frontToken final (phrase ++ closing :: rest)).kind ≠ .closeParen := by
    obtain ⟨token, tail, rfl, hkind⟩ := hstarts
    intro hclose
    have hclose' : token.kind = .closeParen := hclose
    rw [hclose'] at hkind
    cases hkind
  rw [List.append_assoc, List.cons_append, List.cons_append]
  exact call_decides h hopening (CommaList.commaList_decides hopening hfront hitems)

theorem grouping_accepts {opening closing : Token} {value : Expr}
    (hopening : opening.kind = .openParen)
    (h : Accepts final (.tier 0) levels phrase .closeParen value)
    (hclosing : closing.kind = .closeParen) :
    Accepts final .operand (levels + 1) (opening :: phrase ++ [closing]) next value := by
  intro free rest _
  have hrule : Rules.standard.operand opening.kind = some .grouping := by
    rw [hopening]
    rfl
  have hfollows : Follows final .closeParen (closing :: rest) :=
    .of_ne_terminator hclosing (by decide) (by decide)
  rw [List.append_assoc, List.cons_append]
  refine Decides.of_run_eq ?_ (run_operand_of_rule hrule)
  apply Decides.after (Advancing.run_token_of_kind hopening _ _)
  refine Decides.congr ((h.expr rfl hfollows free).bind ?_) (iff_of_eq (and_true _))
  exact Decides.after (Advancing.run_skip_of_kind hclosing _ _) (Decides.of_ok rfl)

theorem noAlternative_accepts : Accepts final .alternative 0 [] next none := by
  intro free rest hrest
  have hrun : (alternative (.ofLevels .standard free)).run final rest = .ok none rest [] :=
    run_alternative_of_none hrest.not_elseOnNextLine (hrest.front ▸ hrest.not_elseWord)
  exact (Decides.of_ok hrun).congr (iff_of_true trivial (Nat.zero_le _))

theorem alternative_accepts {word : Token} {body : List Stmt} (hword : word.kind = .elseWord)
    (h : Accepts final .block levels phrase next body) :
    Accepts final .alternative levels (word :: phrase) next (some body) := by
  intro free rest _
  exact ((h free rest).bind_pure some).of_run_eq (run_alternative_of_elseWord hword _ _)

theorem alternativeOnNextLine_accepts {lineBreak word : Token} {body : List Stmt}
    (hbreak : lineBreak.isLineBreak) (hword : word.kind = .elseWord)
    (h : Accepts final .block levels phrase next body) :
    Accepts final .alternative levels (lineBreak :: word :: phrase) next (some body) := by
  intro free rest _
  exact ((h free rest).bind_pure some).of_run_eq (run_alternative_of_lineBreak hbreak hword _ _)

theorem conditional_accepts {word opening closing : Token} {levels'' : Nat}
    {phrase' phrase'' : List Token} {condition : Expr} {consequence : List Stmt}
    {other : Option (List Stmt)} (hword : word.kind = .ifWord) (hopening : opening.kind = .openParen)
    (hcondition : Accepts final (.tier 0) levels phrase .closeParen condition)
    (hclosing : closing.kind = .closeParen)
    (hconsequence : Accepts final .block levels' phrase' (headKind next phrase'') consequence)
    (hother : Accepts final .alternative levels'' phrase'' next other) :
    Accepts final .operand (max (levels + 1) (max levels' levels''))
      (word :: opening :: phrase ++ closing :: phrase' ++ phrase'') next
      (.conditional condition consequence other) := by
  intro free rest hrest
  have hrule : Rules.standard.operand word.kind = some .conditional := by
    rw [hword]
    rfl
  have haccept : (if opening.kind = .openParen then some opening else none) = some opening :=
    if_pos hopening
  have hfollows : Follows final .closeParen (closing :: (phrase' ++ (phrase'' ++ rest))) :=
    .of_ne_terminator hclosing (by decide) (by decide)
  have hcondition := hcondition.expr rfl hfollows free
  have hother := (hother free rest hrest).bind_pure fun other =>
    Expr.conditional condition consequence other
  simp only [List.append_assoc, List.cons_append]
  refine Decides.of_run_eq ?_ (run_operand_of_rule hrule)
  apply Decides.after (Advancing.run_token_of_kind hword _ _)
  apply Decides.after (Advancing.run_accept_of_some haccept _ _)
  refine Decides.congr (hcondition.bind ?_) (by rw [Nat.max_le])
  apply Decides.after (Advancing.run_skip_of_kind hclosing _ _)
  exact ((hconsequence free _).bind hother).congr (by rw [Nat.max_le])

/-- Names stand between commas, and nothing in them opens a level. -/
theorem names_run {names : List String} (h : Names phrase names) (what : String) {closing : Token}
    (hclosing : closing.kind = .closeParen) : ∃ values : List Token,
      values.map (·.text) = names ∧
        (CommaList.items what (.token .identifier)).Decides final (phrase ++ closing :: rest) True
          values rest := by
  induction h with
  | @last name h =>
    have hitem := Decides.of_ok (Advancing.run_token_of_kind h final (closing :: rest))
    exact ⟨[name], rfl, CommaList.items_decides_last hclosing hitem⟩
  | @more name comma phrase names h hcomma tail ih =>
    have hfront : (frontToken final (phrase ++ closing :: rest)).kind ≠ .closeParen := by
      cases tail with
      | last h | more h => simp [h]
    obtain ⟨values, rfl, hvalues⟩ := ih
    have hitem := Decides.of_ok (Advancing.run_token_of_kind h final
      (comma :: (phrase ++ closing :: rest)))
    exact ⟨name :: values, rfl, (CommaList.items_decides_more hcomma hfront hitem hvalues).congr
      (iff_of_eq (and_true _))⟩

theorem parameters_run {names : List String} (h : Parameters phrase names) (what : String) :
    ∃ values : List Token, values.map (·.text) = names ∧
      (commaList what (.token .identifier)).Decides final (phrase ++ rest) True values rest := by
  cases h with
  | none hopening hclosing =>
    exact ⟨[], rfl, Decides.of_ok (CommaList.run_commaList_empty hopening hclosing rest)⟩
  | @some opening closing phrase _ hopening h hclosing =>
    obtain ⟨values, hvalues, hitems⟩ := @names_run final phrase rest _ h what closing hclosing
    have hfront : (frontToken final (phrase ++ closing :: rest)).kind ≠ .closeParen := by
      cases h with
      | last h | more h => simp [h]
    refine ⟨values, hvalues, ?_⟩
    rw [List.append_assoc]
    exact CommaList.commaList_decides hopening hfront hitems

theorem function_accepts {word : Token} {phrase' : List Token} {parameters : List String}
    {body : List Stmt} (hword : word.kind = .fnWord) (hparameters : Parameters phrase parameters)
    (hbody : Accepts final .block levels phrase' next body) :
    Accepts final .operand levels (word :: phrase ++ phrase') next (.function parameters body) := by
  intro free rest _
  have hrule : Rules.standard.operand word.kind = some .function := by
    rw [hword]
    rfl
  obtain ⟨values, rfl, hvalues⟩ := @parameters_run final phrase (phrase' ++ rest) _ hparameters
    "parameter list"
  simp only [List.append_assoc, List.cons_append]
  refine Decides.of_run_eq ?_ (run_operand_of_rule hrule)
  apply Decides.after (Advancing.run_token_of_kind hword _ _)
  exact (hvalues.bind ((hbody free rest).bind_pure _)).congr (iff_of_eq (true_and _))

end Operand

theorem CommaList.lastArgument_accepts {argument : Expr}
    (h : Accepts final (.tier 0) levels phrase next argument) :
    Accepts final .arguments (levels + 1) phrase next [argument] := by
  rintro what free closing rest hclosing rfl
  have hfollows : Follows final .closeParen (closing :: rest) :=
    .of_ne_terminator hclosing (by decide) (by decide)
  exact items_decides_last hclosing (h.expr rfl hfollows free)

theorem CommaList.argument_accepts {comma : Token} {phrase' : List Token} {argument : Expr}
    {arguments : List Expr} (h : Accepts final (.tier 0) levels phrase .comma argument)
    (hcomma : comma.kind = .comma) (hstarts : Symbol.arguments.Starts phrase')
    (tail : Accepts final .arguments levels' phrase' next arguments) :
    Accepts final .arguments (max (levels + 1) levels') (phrase ++ comma :: phrase') next
      (argument :: arguments) := by
  intro what free closing rest hclosing hnext
  have hfollows : Follows final .comma (comma :: (phrase' ++ closing :: rest)) :=
    .of_ne_terminator hcomma (by decide) (by decide)
  have hfront : (frontToken final (phrase' ++ closing :: rest)).kind ≠ .closeParen := by
    obtain ⟨token, tail, rfl, hkind⟩ := hstarts
    intro hclose
    have hclose' : token.kind = .closeParen := hclose
    rw [hclose'] at hkind
    cases hkind
  rw [List.append_assoc, List.cons_append]
  refine (items_decides_more hcomma hfront (h.expr rfl hfollows free)
    (tail what free closing rest hclosing hnext)).congr ?_
  rw [Nat.max_le]

namespace Block

theorem emptyBody_accepts : Accepts final .body 0 [] next [] := by
  intro free closing rest hclosing _
  have hturn : turn .standard (.ofLevels .standard free) (frontToken final (closing :: rest)).kind =
      .stop (Advancing.skip .closeBrace) := by
    rw [frontToken_cons, hclosing]
    rfl
  exact ⟨[], rfl, (Decides.many_stop hturn (Advancing.run_skip_of_kind hclosing final rest)).congr
    (iff_of_true trivial (Nat.zero_le _))⟩

theorem emptyStatement_accepts {token : Token} {body : List Stmt} (htoken : token.kind = .terminator)
    (h : Accepts final .body levels phrase next body) :
    Accepts final .body levels (token :: phrase) next body := by
  intro free closing rest hclosing hnext
  obtain ⟨entries, hentries, hmany⟩ := h free closing rest hclosing hnext
  have hturn : turn .standard (.ofLevels .standard free)
      (frontToken final (token :: (phrase ++ closing :: rest))).kind =
        .more ((Advancing.token .terminator).map fun _ => none) := by
    rw [frontToken_cons, htoken]
    rfl
  have hitem := (Decides.of_ok (Advancing.run_token_of_kind htoken final
    (phrase ++ closing :: rest))).bind_pure fun _ => (none : Option Stmt)
  exact ⟨none :: entries, hentries, (Decides.many_more hturn hitem hmany).congr
    (iff_of_eq (true_and _))⟩

theorem headKind_ne_elseWord (h : Symbol.body.Starts phrase) (hnext : next ≠ .elseWord) :
    headKind next phrase ≠ .elseWord := by
  cases phrase with
  | nil => exact hnext
  | cons token phrase =>
    intro hword
    have hword' : token.kind = .elseWord := hword
    rcases h token rfl with hkind | hkind <;> rw [hword'] at hkind <;> cases hkind

theorem statements_accepts {phrase' : List Token} {stmt : Stmt} {body : List Stmt}
    (hstarts : Symbol.statement.Starts phrase) (hbody : Symbol.body.Starts phrase')
    (h : Accepts final .statement levels phrase (headKind next phrase') stmt)
    (tail : Accepts final .body levels' phrase' next body) :
    Accepts final .body (max levels levels') (phrase ++ phrase') next (stmt :: body) := by
  rintro free closing rest hclosing rfl
  obtain ⟨entries, rfl, hmany⟩ := tail free closing rest hclosing rfl
  have hfront : (frontToken final (phrase' ++ closing :: rest)).kind =
      headKind .closeBrace phrase' := by
    rw [headKind_frontToken, frontToken_cons, hclosing]
  have hitem := (h free (phrase' ++ closing :: rest) hfront
    (headKind_ne_elseWord hbody (by decide))).bind_pure some
  have hturn : turn .standard (.ofLevels .standard free)
      (frontToken final (phrase ++ (phrase' ++ closing :: rest))).kind =
        .more ((statement .standard (.ofLevels .standard free)).map some) := by
    obtain ⟨token, phrase, rfl, hkind⟩ := hstarts
    exact turn_of_startsStatement hkind
  refine ⟨some stmt :: entries, rfl, ?_⟩
  rw [List.append_assoc]
  apply (Decides.many_more hturn hitem hmany).congr
  rw [Nat.max_le]

theorem block_accepts {opening closing : Token} {body : List Stmt}
    (hopening : opening.kind = .openBrace)
    (h : Accepts final .body levels phrase .closeBrace body)
    (hclosing : closing.kind = .closeBrace) :
    Accepts final .block (levels + 1) (opening :: phrase ++ [closing]) next body := by
  intro free rest
  refine Layer.block_decides (fun free => ?_) free
  obtain ⟨entries, rfl, hmany⟩ := h free closing rest hclosing rfl
  rw [List.append_assoc, List.cons_append]
  exact Decides.after (Advancing.run_token_of_kind hopening _ _) (hmany.bind_pure _)

end Block

namespace Statement

theorem run_ending_of_ends (h : Ends next stop) (hnext : (frontToken final rest).kind = next) :
    ending.run final (stop ++ rest) = .ok () rest [] := by
  cases h with
  | terminator hstop => exact run_ending_of_terminator hstop final rest
  | outside h =>
    rw [← hnext] at h
    exact run_ending_of_open h

theorem value_decides {value : Expr} (make : Expr → Stmt)
    (h : Accepts final (.tier 0) levels phrase (headKind next stop) value) (hstop : Ends next stop)
    (hnext : (frontToken final rest).kind = next) (hword : next ≠ .elseWord) (free : Nat) :
    (((Layer.ofLevels .standard free).expr .lowest).toParser >>= fun value => do
      ending
      pure (make value)).Decides final (phrase ++ (stop ++ rest)) (levels + 1 ≤ free) (make value)
        rest := by
  have hvalue := h.expr (operatorRank_of_ends hstop) (.of_ends hstop hnext hword) free
  refine Decides.congr (hvalue.bind ?_) (iff_of_eq (and_true _))
  exact Decides.after (run_ending_of_ends hstop hnext) (Decides.of_ok rfl)

theorem binding_accepts {word name assign : Token} {value : Expr} (hword : word.kind = .letWord)
    (hname : name.kind = .identifier) (hassign : assign.kind = .assign)
    (h : Accepts final (.tier 0) levels phrase (headKind next stop) value) (hstop : Ends next stop) :
    Accepts final .statement (levels + 1) (word :: name :: assign :: phrase ++ stop) next
      (.binding name.text value) := by
  intro free rest hnext hnotElse
  have hrule : Rules.standard.statement word.kind = some .binding := by
    rw [hword]
    rfl
  simp only [List.append_assoc, List.cons_append]
  refine Decides.of_run_eq (Decides.starting _ ?_) (run_statement_of_rule hrule)
  apply Decides.after (Advancing.run_token_of_kind hword _ _)
  apply Decides.after (Advancing.run_token_of_kind hname _ _)
  apply Decides.after (Advancing.run_skip_of_kind hassign _ _)
  exact value_decides (.binding name.text) h hstop hnext hnotElse free

theorem result_accepts {word : Token} {value : Expr} (hword : word.kind = .returnWord)
    (h : Accepts final (.tier 0) levels phrase (headKind next stop) value) (hstop : Ends next stop) :
    Accepts final .statement (levels + 1) (word :: phrase ++ stop) next (.result value) := by
  intro free rest hnext hnotElse
  have hrule : Rules.standard.statement word.kind = some .result := by
    rw [hword]
    rfl
  simp only [List.append_assoc, List.cons_append]
  refine Decides.of_run_eq (Decides.starting _ ?_) (run_statement_of_rule hrule)
  apply Decides.after (Advancing.run_token_of_kind hword _ _)
  exact value_decides .result h hstop hnext hnotElse free

theorem expression_accepts {value : Expr} (hstarts : (Symbol.tier 0).Starts phrase)
    (h : Accepts final (.tier 0) levels phrase (headKind next stop) value) (hstop : Ends next stop) :
    Accepts final .statement (levels + 1) (phrase ++ stop) next (.expression value) := by
  intro free rest hnext hnotElse
  obtain ⟨token, phrase, rfl, hkind⟩ := hstarts
  rw [List.append_assoc]
  refine Decides.of_run_eq (Decides.starting token.kind ?_) (run_statement_of_startsOperand hkind)
  exact value_decides .expression h hstop hnext hnotElse free

theorem block_accepts {body : List Stmt} (hstarts : Symbol.block.Starts phrase)
    (h : Accepts final .block levels phrase next body) :
    Accepts final .statement levels phrase next (.block body) := by
  intro free rest _ _
  obtain ⟨token, phrase, rfl, hkind⟩ := hstarts
  have hrule : Rules.standard.statement token.kind = some .block := by
    rw [hkind]
    rfl
  refine Decides.of_run_eq (Decides.starting token.kind ?_) (run_statement_of_rule hrule)
  exact (h free rest).bind_pure Stmt.block

end Statement

/-- A derivation is what the parser of its nonterminal finds, as far as the levels reach. -/
theorem Derives.accepts {symbol : Symbol} {tree : symbol.Tree}
    (h : Derives symbol levels phrase next tree) (final : Position) :
    Accepts final symbol levels phrase next tree := by
  induction h with
  | tighter hindex h ih =>
    intro free floor rest enough value left hfloor hrank hrest hclimb
    exact ih free floor rest enough value left (by omega) (by omega) hrest hclimb
  | binary _ hop _ ihleft ihright => exact .binary hop ihleft ihright
  | tightest _ ih => exact .tightest ih
  | unary hop _ ih => exact Operand.unary_accepts hop ih
  | operand _ ih => exact ih
  | literal h => exact Operand.literal_accepts h
  | identifier h hnext => exact Operand.identifier_accepts h hnext
  | call h hopening hclosing => exact Operand.call_accepts h hopening hclosing
  | callWith h hopening harguments hclosing ih =>
    exact Operand.callWith_accepts h hopening harguments.starts ih hclosing
  | grouping hopening _ hclosing ih => exact Operand.grouping_accepts hopening ih hclosing
  | conditional hword hopening _ hclosing _ _ ih ih' ih'' =>
    exact Operand.conditional_accepts hword hopening ih hclosing ih' ih''
  | function hword hparameters _ ih => exact Operand.function_accepts hword hparameters ih
  | lastArgument _ ih => exact CommaList.lastArgument_accepts ih
  | argument _ hcomma tail ih ih' => exact CommaList.argument_accepts ih hcomma tail.starts ih'
  | noAlternative => exact Operand.noAlternative_accepts
  | alternative hword _ ih => exact Operand.alternative_accepts hword ih
  | alternativeOnNextLine hbreak hword _ ih =>
    exact Operand.alternativeOnNextLine_accepts hbreak hword ih
  | block hopening _ hclosing ih => exact Block.block_accepts hopening ih hclosing
  | emptyBody => exact Block.emptyBody_accepts
  | emptyStatement hstop _ ih => exact Block.emptyStatement_accepts hstop ih
  | statements h tail ih ih' => exact Block.statements_accepts h.starts tail.starts ih ih'
  | binding hword hname hassign _ hstop ih => exact Statement.binding_accepts hword hname hassign ih hstop
  | result hword _ hstop ih => exact Statement.result_accepts hword ih hstop
  | expression h hstop ih => exact Statement.expression_accepts h.starts ih hstop
  | blockStatement h ih => exact Statement.block_accepts h.starts ih

end ShellFrontend
