import ShellFrontend.Proofs.RoundTrip
import ShellFrontend.Proofs.Soundness
import ShellFrontend.Proofs.Tiling

/-! # Parsed trees are well-formed, and their rendering

Whatever the source, the names and numbers of a parsed tree were scanned, and so the tree is
well-formed. It is parsed back from its rendering as far as the rendering keeps to the limit:
its parentheses open levels that the source may have done without.
-/

set_option autoImplicit false

namespace ShellFrontend

/-- What a scanned token may say: names and numbers have their own form. -/
structure Token.IsScanned (token : Token) : Prop where
  name : token.kind = .identifier → isName token.text
  number : token.kind = .number → IsPositional token.text.toList

theorem Reading.isScanned {file : String} {offset : Nat} {slice rest : List Char} {token : Token}
    (h : Reading file offset slice rest token) : token.IsScanned := by
  obtain ⟨c, others, rfl, hclassified⟩ := h.classified
  constructor
  · intro hkind
    rw [h.spelled.text_eq (by simp [hkind]) (by simp [hkind])]
    exact Classified.isName (hkind ▸ hclassified)
  · intro hkind
    rw [h.spelled.text_eq (by simp [hkind]) (by simp [hkind]), String.toList_ofList]
    exact Classified.isPositional (hkind ▸ hclassified)

theorem tokenize_isScanned (source file : String) :
    ∀ token ∈ tokenize source file, token.IsScanned := by
  obtain ⟨tokens, htokens, htiles⟩ := tokenize_tiles source file
  have hend : ∀ final, (Token.endMarker final).IsScanned :=
    fun final => ⟨nofun, nofun⟩
  rw [htokens]
  exact List.forall_mem_append.2
    ⟨htiles.forall_mem Reading.isScanned, List.forall_mem_singleton.2 (hend _)⟩

section trees

variable {next : Kind} {phrase : List Token}

theorem Literal.isWellFormed {token : Token} {expr : Expr} (h : Literal token expr)
    (hscanned : token.IsScanned) : expr.isWellFormed := by
  cases h with
  | number hkind hvalue hfinite =>
    have hsign := Binary64.sign_of_isPositional (hscanned.number hkind)
    rw [Binary64.ofText?, hsign] at hvalue
    obtain ⟨decimal, -, rfl⟩ := Option.map_eq_some_iff.1 hvalue
    rw [Expr.isWellFormed, hfinite]
    rfl
  | string | command | yes | no => rfl

theorem Names.isName {names : List String} (h : Names phrase names)
    (hscanned : ∀ token ∈ phrase, token.IsScanned) : names.all isName := by
  induction h with
  | last hname => simpa using (List.forall_mem_singleton.1 hscanned).name hname
  | more hname _ _ ih =>
    simp only [List.forall_mem_cons] at hscanned
    rw [List.all_cons, hscanned.1.name hname]
    exact ih hscanned.2.2

theorem Parameters.isName {names : List String} (h : Parameters phrase names)
    (hscanned : ∀ token ∈ phrase, token.IsScanned) : names.all isName := by
  cases h with
  | none => rfl
  | some _ h _ =>
    simp only [List.cons_append, List.forall_mem_cons, List.forall_mem_append] at hscanned
    exact h.isName hscanned.2.1

def Symbol.IsWellFormed : (symbol : Symbol) → symbol.Tree → Bool
  | .tier _, expr | .unary, expr | .operand, expr => Expr.isWellFormed expr
  | .arguments, exprs => argumentsAreWellFormed exprs
  | .alternative, other => alternativeIsWellFormed other
  | .block, stmts | .body, stmts => blockIsWellFormed stmts
  | .statement, stmt => Stmt.isWellFormed stmt

theorem Derives.isWellFormed {symbol : Symbol} {levels : Nat} {tree : symbol.Tree}
    (h : Derives symbol levels phrase next tree) (hscanned : ∀ token ∈ phrase, token.IsScanned) :
    symbol.IsWellFormed tree := by
  induction h with
  | tighter _ _ ih | tightest _ ih | operand _ ih => exact ih hscanned
  | binary _ _ _ ihleft ihright =>
    simp only [List.forall_mem_append, List.forall_mem_cons] at hscanned
    exact Bool.and_eq_true_iff.2 ⟨ihleft hscanned.1, ihright hscanned.2.2⟩
  | unary _ _ ih => exact ih (List.forall_mem_cons.1 hscanned).2
  | literal h => exact h.isWellFormed (List.forall_mem_singleton.1 hscanned)
  | identifier h => exact (List.forall_mem_singleton.1 hscanned).name h
  | call h => exact Bool.and_eq_true_iff.2 ⟨(List.forall_mem_cons.1 hscanned).1.name h, rfl⟩
  | callWith h _ _ _ ih =>
    simp only [List.cons_append, List.forall_mem_append, List.forall_mem_cons] at hscanned
    exact Bool.and_eq_true_iff.2 ⟨hscanned.1.name h, ih hscanned.2.2.1⟩
  | grouping _ _ _ ih =>
    simp only [List.cons_append, List.forall_mem_append, List.forall_mem_cons] at hscanned
    exact ih hscanned.2.1
  | conditional _ _ _ _ _ _ ihcondition ihconsequence ihother =>
    simp only [List.cons_append, List.forall_mem_append, List.forall_mem_cons] at hscanned
    obtain ⟨-, -, ⟨hcondition, -, hconsequence⟩, hother⟩ := hscanned
    exact Bool.and_eq_true_iff.2 ⟨Bool.and_eq_true_iff.2 ⟨ihcondition hcondition,
      ihconsequence hconsequence⟩, ihother hother⟩
  | function _ hparameters _ ih =>
    simp only [List.cons_append, List.forall_mem_append, List.forall_mem_cons] at hscanned
    exact Bool.and_eq_true_iff.2 ⟨hparameters.isName hscanned.2.1, ih hscanned.2.2⟩
  | lastArgument _ ih => exact Bool.and_eq_true_iff.2 ⟨ih hscanned, rfl⟩
  | argument _ _ _ ih ihtail =>
    simp only [List.forall_mem_append, List.forall_mem_cons] at hscanned
    exact Bool.and_eq_true_iff.2 ⟨ih hscanned.1, ihtail hscanned.2.2⟩
  | noAlternative | emptyBody => rfl
  | alternative _ _ ih => exact ih (List.forall_mem_cons.1 hscanned).2
  | alternativeOnNextLine _ _ _ ih =>
    simp only [List.forall_mem_cons] at hscanned
    exact ih hscanned.2.2
  | block _ _ _ ih =>
    simp only [List.cons_append, List.forall_mem_append, List.forall_mem_cons] at hscanned
    exact ih hscanned.2.1
  | emptyStatement _ _ ih => exact ih (List.forall_mem_cons.1 hscanned).2
  | statements _ _ ih ihtail =>
    rw [List.forall_mem_append] at hscanned
    exact Bool.and_eq_true_iff.2 ⟨ih hscanned.1, ihtail hscanned.2⟩
  | binding _ hname _ _ _ ih =>
    simp only [List.cons_append, List.forall_mem_append, List.forall_mem_cons] at hscanned
    exact Bool.and_eq_true_iff.2 ⟨hscanned.2.1.name hname, ih hscanned.2.2.2.1⟩
  | result _ _ _ ih =>
    simp only [List.cons_append, List.forall_mem_append, List.forall_mem_cons] at hscanned
    exact ih hscanned.2.1
  | expression _ _ ih => exact ih (List.forall_mem_append.1 hscanned).1
  | blockStatement _ ih => exact ih hscanned

end trees

theorem results_isWellFormed (free : Nat) (final : Position) {tokens : List Token}
    (hscanned : ∀ token ∈ tokens, token.IsScanned) :
    blockIsWellFormed (Piece.results (pieces (statement .standard (.ofLevels .standard free)) final
      tokens)).1 := by
  fun_induction pieces (statement .standard (.ofLevels .standard free)) final tokens with
  | case1 | case2 => rfl
  | case3 token rest hend hstop ih => exact ih (List.forall_mem_cons.1 hscanned).2
  | case4 token rest hend hstop value left started hrun ih =>
    obtain ⟨phrase, hphrase, levels, -, hstmt⟩ := statement_yields (Layer.ofLevels_sound free) hrun
    rw [hphrase, List.forall_mem_append] at hscanned
    exact Bool.and_eq_true_iff.2 ⟨hstmt.isWellFormed hscanned.1, ih hscanned.2⟩
  -- Behind an error statements are derived as well.
  | case5 token rest hend hstop error failed started hrun left ih =>
    have hsuffix : left <:+ rest := skipStatement_cons_suffix 0 0 hend
    exact ih fun token htoken => hscanned token (List.mem_cons_of_mem _ (hsuffix.mem htoken))

theorem parse_isWellFormed (source file file' : String) :
    (parse (tokenize source file) file').program.isWellFormed :=
  results_isWellFormed nestingLimit _ (tokenize_isScanned source file)

/-- What was parsed, with errors beside it or without, is parsed back from its rendering but for
the statements whose rendering needs too many levels. -/
theorem parse_render_of_parsed (source file file' : String) :
    let program := (parse (tokenize source file) file').program
    let again := parse (tokenize program.render file) file'
    again.program.statements = program.statements.filter (fun stmt => stmt.levels ≤ nestingLimit) ∧
      again.errors.map (·.cause) =
        (program.statements.filter (fun stmt => nestingLimit < stmt.levels)).map
          (fun _ => .tooDeep nestingLimit) ∧
      (again.errors = [] ∧ again.program = program ∧ again.program.render = program.render ↔
        ∀ stmt ∈ program.statements, stmt.levels ≤ nestingLimit) := by
  intro program again
  have hwf : program.isWellFormed := parse_isWellFormed source file file'
  obtain ⟨tokens, final, heq, hspells⟩ := tokenize_render hwf file
  have hlines := results_of_lines hwf hspells nestingLimit
    (endPosition (tokens ++ [.endMarker final]) file') final
  rw [← heq] at hlines
  obtain ⟨hstmts, herrors⟩ : again.program.statements = _ ∧ again.errors.map (·.cause) = _ := hlines
  refine ⟨hstmts, herrors, ?_⟩
  constructor
  · rintro ⟨-, hprogram, -⟩ stmt hstmt
    rw [← hprogram, hstmts] at hstmt
    exact of_decide_eq_true (List.mem_filter.1 hstmt).2
  · intro hall
    have hkept : again.program = program := by
      refine congrArg Program.mk (hstmts.trans ?_)
      exact List.filter_eq_self.2 fun stmt h => decide_eq_true (hall stmt h)
    have hdropped : program.statements.filter (fun stmt => nestingLimit < stmt.levels) = [] :=
      List.filter_eq_nil_iff.2 fun stmt h => by simpa using hall stmt h
    rw [hdropped, List.map_nil, List.map_eq_nil_iff] at herrors
    exact ⟨herrors, hkept, congrArg Program.render hkept⟩

/-- A prefix operator opens one level, and its parentheses in the rendering another. -/
theorem parse_render_of_accepted_negations :
    let source := String.ofList (List.replicate 64 '!' ++ "true".toList)
    let parsed := parse (tokenize source "shell") "shell"
    let again := parse (tokenize parsed.program.render "shell") "shell"
    parsed.errors = [] ∧ again.errors.map (·.cause) = [.tooDeep nestingLimit] ∧
      again.program.statements = [] := by
  intro source parsed again
  have hparsed : parsed.errors = [] ∧ parsed.program.statements.map Stmt.levels = [129] := by
    decide +kernel
  obtain ⟨hstmts, herrors, -⟩ := parse_render_of_parsed source "shell" "shell"
  obtain ⟨stmt, hprogram, hlevels⟩ := List.map_eq_singleton_iff.1 hparsed.2
  have hdeep : nestingLimit < stmt.levels := by
    rw [hlevels]
    decide
  rw [hprogram] at hstmts herrors
  refine ⟨hparsed.1, herrors.trans ?_, hstmts.trans ?_⟩
  · rw [List.filter_cons_of_pos (by simpa using hdeep)]
    rfl
  · exact List.filter_cons_of_neg (by simpa using hdeep)

end ShellFrontend
