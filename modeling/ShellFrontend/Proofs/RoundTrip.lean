import ShellFrontend.Proofs.Completeness
import ShellFrontend.Proofs.Pieces
import ShellFrontend.Proofs.SpelledTrees

/-! # Rendered programs are parsed back

A statement of a rendered program stands on a line of its own and is parsed back if it does not
need too many levels. One that does is skipped to the end of its line, with an error.
-/

set_option autoImplicit false

namespace ShellFrontend

/-- No token of a spelling is a line break. -/
def isInline (spelling : List (Kind × String)) : Bool :=
  spelling.all fun content => content ≠ sign .terminator '\n'

@[simp] theorem isInline_nil : isInline [] = true := rfl

@[simp] theorem isInline_cons (content : Kind × String) (spelling : List (Kind × String)) :
    isInline (content :: spelling) = (decide (content ≠ sign .terminator '\n') && isInline spelling) :=
  List.all_cons

@[simp] theorem isInline_append (first second : List (Kind × String)) :
    isInline (first ++ second) = (isInline first && isInline second) :=
  List.all_append

theorem isInline_namesSpelling (names : List String) : isInline (namesSpelling names) := by
  induction names with
  | nil => rfl
  | cons name names ih =>
    cases names with
    | nil => simp [namesSpelling, sign]
    | cons second names =>
      simp only [namesSpelling, isInline_cons, ih]
      simp [sign]

mutual

theorem Expr.isInline_spelling (expr : Expr) : isInline expr.spelling := by
  cases expr with
  | boolean value => cases value <;> simp [Expr.spelling, sign]
  | unary op right =>
    have hright := right.isInline_spelling
    cases op <;> simp [Expr.spelling, sign, UnaryOperator.kind, hright]
  | binary left op right =>
    have hleft := left.isInline_spelling
    have hright := right.isInline_spelling
    cases op <;> simp [Expr.spelling, sign, BinaryOperator.kind, hleft, hright]
  | conditional condition consequence alternative =>
    have hcondition := condition.isInline_spelling
    have hconsequence := isInline_blockSpelling consequence
    have halternative := isInline_alternativeSpelling alternative
    by_cases hparens : condition.isParenthesized <;>
      simp [Expr.spelling, sign, hparens, hcondition, hconsequence, halternative]
  | function parameters body =>
    have hbody := isInline_blockSpelling body
    simp [Expr.spelling, sign, isInline_namesSpelling, hbody]
  | call callee arguments =>
    have harguments := isInline_argumentsSpelling arguments
    simp [Expr.spelling, sign, harguments]
  | _ => simp [Expr.spelling, sign]
termination_by sizeOf expr

theorem Stmt.isInline_spelling (stmt : Stmt) : isInline stmt.spelling := by
  cases stmt with
  | binding name value =>
    have hvalue := value.isInline_spelling
    simp [Stmt.spelling, sign, hvalue]
  | result value =>
    have hvalue := value.isInline_spelling
    simp [Stmt.spelling, sign, hvalue]
  | expression value => exact value.isInline_spelling
  | block body => exact isInline_blockSpelling body
termination_by sizeOf stmt

theorem isInline_blockSpelling (body : List Stmt) : isInline (blockSpelling body) := by
  cases body with
  | nil => simp [blockSpelling, sign]
  | cons stmt stmts =>
    have hstmt := stmt.isInline_spelling
    have hstmts := isInline_furtherSpelling stmts
    simp [blockSpelling, sign, hstmt, hstmts]
termination_by sizeOf body

theorem isInline_furtherSpelling (stmts : List Stmt) : isInline (furtherSpelling stmts) := by
  cases stmts with
  | nil => simp [furtherSpelling]
  | cons stmt stmts =>
    have hstmt := stmt.isInline_spelling
    have hstmts := isInline_furtherSpelling stmts
    simp [furtherSpelling, sign, hstmt, hstmts]
termination_by sizeOf stmts

theorem isInline_alternativeSpelling (alternative : Option (List Stmt)) :
    isInline (alternativeSpelling alternative) := by
  cases alternative with
  | none => simp [alternativeSpelling]
  | some body =>
    have hbody := isInline_blockSpelling body
    simp [alternativeSpelling, sign, hbody]
termination_by sizeOf alternative

theorem isInline_argumentsSpelling (arguments : List Expr) :
    isInline (argumentsSpelling arguments) := by
  cases arguments with
  | nil => simp [argumentsSpelling]
  | cons argument arguments =>
    have hargument := argument.isInline_spelling
    have harguments := isInline_furtherArgumentsSpelling arguments
    simp [argumentsSpelling, hargument, harguments]
termination_by sizeOf arguments

theorem isInline_furtherArgumentsSpelling (arguments : List Expr) :
    isInline (furtherArgumentsSpelling arguments) := by
  cases arguments with
  | nil => simp [furtherArgumentsSpelling]
  | cons argument arguments =>
    have hargument := argument.isInline_spelling
    have harguments := isInline_furtherArgumentsSpelling arguments
    simp [furtherArgumentsSpelling, sign, hargument, harguments]
termination_by sizeOf arguments

end

theorem Spells.not_isLineBreak {tokens : List Token} {spelling : List (Kind × String)}
    (h : Spells tokens spelling) (hinline : isInline spelling) :
    ∀ token ∈ tokens, token.isLineBreak = false := by
  intro token htoken
  have hcontent : token.content ∈ spelling := h ▸ List.mem_map_of_mem htoken
  have hne := List.all_eq_true.1 hinline _ hcontent
  rw [← Bool.not_eq_true]
  intro hbreak
  simp only [Token.isLineBreak, Bool.and_eq_true, decide_eq_true_eq] at hbreak
  have heq : token.content = sign .terminator '\n' := Prod.ext hbreak.1 hbreak.2
  rw [heq] at hne
  exact absurd hne (by decide)

namespace Derives

variable {levels : Nat} {phrase : List Token}

theorem passage_of_expr {value : Expr} (h : Derives (.tier 0) levels phrase .endOfInput value)
    (braces parens : Nat) : Passage braces parens phrase braces parens := by
  have hend : Follows ⟨0, ""⟩ .endOfInput [] := .of_ne_terminator rfl (by decide) (by decide)
  obtain ⟨started, hrun⟩ := ((h.accepts _).expr rfl hend (levels + 1)).ok (Nat.le_refl _)
  obtain ⟨read, heq, hread, -⟩ :=
    ((Layer.ofLevels_reads .standard (levels + 1)).expr .lowest braces parens).ok hrun
  rw [List.append_nil, List.append_nil] at heq
  exact heq ▸ hread

theorem passage_of_block {body : List Stmt} (h : Derives .block levels phrase .endOfInput body)
    (braces parens : Nat) : Passage braces parens phrase braces parens := by
  obtain ⟨started, hrun⟩ := (h.accepts ⟨0, ""⟩ levels []).ok (Nat.le_refl _)
  obtain ⟨read, heq, hread, -⟩ :=
    ((Layer.ofLevels_reads .standard levels).block braces parens).ok hrun
  rw [List.append_nil, List.append_nil] at heq
  exact heq ▸ hread

end Derives

section line

variable {stmt : Stmt} {tokens : List Token}

theorem Stmt.passage (hwf : stmt.isWellFormed) (h : Spells tokens stmt.spelling) :
    Passage 0 0 tokens 0 0 := by
  have hvalue : ∀ {value : Expr} {phrase}, value.isWellFormed → Spells phrase value.spelling →
      Passage 0 0 phrase 0 0 := by
    intro value phrase hwf h
    obtain ⟨levels, -, hderives⟩ := Expr.derives hwf h .endOfInput (by decide)
    exact (hderives.tier_of_operand (Nat.zero_le 4)).passage_of_expr 0 0
  have hplain : ∀ {kind : Kind} {token : Token}, token.kind = kind → kind.isPlain →
      token.kind.isPlain := fun hkind hplain => hkind ▸ hplain
  cases stmt with
  | binding name value =>
    simp only [Stmt.isWellFormed, Bool.and_eq_true] at hwf
    obtain ⟨word, tail, rfl, hword, -, htail⟩ := Spells.of_cons h
    obtain ⟨token, tail, rfl, hname, -, hrest⟩ := htail.of_cons
    obtain ⟨assign, phrase, rfl, hassign, -, hphrase⟩ := hrest.of_cons
    exact .plain (hplain hword rfl)
      (.plain (hplain hname rfl) (.plain (hplain hassign rfl) (hvalue hwf.2 hphrase)))
  | result value =>
    obtain ⟨word, phrase, rfl, hword, -, hphrase⟩ := Spells.of_cons h
    exact .plain (hplain hword rfl) (hvalue hwf hphrase)
  | expression value => exact hvalue hwf h
  | block body => exact (block_derives hwf h .endOfInput).passage_of_block 0 0

theorem skipStatement_of_spells (hwf : stmt.isWellFormed) (h : Spells tokens stmt.spelling)
    (rest : List Token) : skipStatement 0 0 (tokens ++ rest) = skipStatement 0 0 rest := by
  rcases (Stmt.passage hwf h).recovers rest with hskip | ⟨before, lineBreak, word, after, rfl, hbreak, -⟩
  · exact hskip
  · have hinline := h.not_isLineBreak stmt.isInline_spelling lineBreak
      (List.mem_append_right _ List.mem_cons_self)
    rw [hbreak] at hinline
    cases hinline

theorem Stmt.exists_cons_of_spells (hwf : stmt.isWellFormed) (h : Spells tokens stmt.spelling) :
    ∃ token rest, tokens = token :: rest ∧ token.kind.startsStatement := by
  have hends : Ends .endOfInput [] := .outside (.inr rfl)
  rcases Stmt.derives hwf h hends with hderives | hderives
  · rw [List.append_nil] at hderives
    exact hderives.starts
  · exact hderives.starts

variable {parser : Advancing Stmt} {free : Nat} {final : Position} {next : Kind}
  {stop rest : List Token}

theorem results_of_ends (h : Ends next stop) :
    Piece.results (pieces parser final (stop ++ rest)) = Piece.results (pieces parser final rest) := by
  cases h with
  | terminator h => exact results_of_terminator h
  | outside h => rfl

theorem skipStatement_of_ends (h : Ends next stop) (hrest : (frontToken final rest).kind = next)
    (hnext : next ≠ .closeBrace) : skipStatement 0 0 (stop ++ rest) = rest := by
  cases h with
  | terminator h =>
    rw [List.singleton_append, skipStatement_terminator _ _ _ h]
    rfl
  | outside h =>
    rcases h with rfl | rfl
    · exact absurd rfl hnext
    · cases rest with
      | nil => rfl
      | cons token rest =>
        have hkind : token.kind = .endOfInput := hrest
        rw [List.nil_append, skipStatement, hkind]

/-- What a line gives: its statement, or one error if the statement needs too many levels. -/
theorem results_of_line (hwf : stmt.isWellFormed) (h : Spells tokens stmt.spelling)
    (hstop : Ends next stop) (hrest : (frontToken final rest).kind = next)
    (hword : next ≠ .elseWord) (hbrace : next ≠ .closeBrace) :
    let parser := statement .standard (.ofLevels .standard free)
    let later := Piece.results (pieces parser final rest)
    if stmt.levels ≤ free then
      Piece.results (pieces parser final (tokens ++ (stop ++ rest))) = (stmt :: later.1, later.2)
    else ∃ position, Piece.results (pieces parser final (tokens ++ (stop ++ rest))) =
      (later.1, ⟨.tooDeep nestingLimit, position⟩ :: later.2) := by
  intro parser later
  have hskip : skipStatement 0 0 (tokens ++ (stop ++ rest)) = rest :=
    (skipStatement_of_spells hwf h _).trans (skipStatement_of_ends hstop hrest hbrace)
  -- A block leaves the end of its line, where other statements take it.
  have hdecides : ∃ left, parser.Decides final (tokens ++ (stop ++ rest)) (stmt.levels ≤ free) stmt
      left ∧ Piece.results (pieces parser final left) = later := by
    rcases Stmt.derives hwf h hstop with hderives | hderives
    · have haccepts := hderives.accepts final free rest hrest hword
      rw [List.append_assoc] at haccepts
      exact ⟨rest, haccepts, rfl⟩
    · have hfront : (frontToken final (stop ++ rest)).kind = headKind next stop := by
        rw [headKind_frontToken, hrest]
      have hne : headKind next stop ≠ .elseWord := by
        cases hstop with
        | terminator hkind => simp [headKind, hkind]
        | outside => exact hword
      exact ⟨stop ++ rest, hderives.accepts final free (stop ++ rest) hfront hne, results_of_ends hstop⟩
  obtain ⟨left, hdecides, hleft⟩ := hdecides
  obtain ⟨token, tail, rfl, hkind⟩ := Stmt.exists_cons_of_spells hwf h
  have hstarts := Kind.startsPiece_of_startsStatement hkind
  split
  · rename_i henough
    obtain ⟨started, hrun⟩ := hdecides.ok henough
    exact (results_of_ok hstarts hrun).trans (by rw [hleft])
  · rename_i hnot
    obtain ⟨position, failed, started, hrun⟩ := hdecides.fail hnot
    exact ⟨position, results_of_fail hstarts hrun hskip⟩

end line

theorem Spells.of_lines {stmt second : Stmt} {stmts : List Stmt} {tokens : List Token}
    (h : Spells tokens (linesSpelling (stmt :: second :: stmts))) :
    ∃ first stop rest, tokens = first ++ stop :: rest ∧ Spells first stmt.spelling ∧
      stop.kind = .terminator ∧ Spells rest (linesSpelling (second :: stmts)) := by
  obtain ⟨first, tail, rfl, hfirst, htail⟩ := Spells.of_append h
  obtain ⟨stop, rest, rfl, hstop, -, hrest⟩ := htail.of_cons
  exact ⟨first, stop, rest, rfl, hfirst, hstop, hrest⟩

theorem exists_cons_of_lines {stmt : Stmt} {stmts : List Stmt} (hwf : stmt.isWellFormed)
    {tokens : List Token} (h : Spells tokens (linesSpelling (stmt :: stmts))) :
    ∃ token rest, tokens = token :: rest ∧ token.kind.startsStatement := by
  cases stmts with
  | nil => exact Stmt.exists_cons_of_spells hwf h
  | cons second stmts =>
    obtain ⟨first, stop, rest, rfl, hfirst, -⟩ := h.of_lines
    obtain ⟨token, tail, rfl, hkind⟩ := Stmt.exists_cons_of_spells hwf hfirst
    exact ⟨token, tail ++ stop :: rest, rfl, hkind⟩

theorem results_of_lines {stmts : List Stmt} (hwf : blockIsWellFormed stmts) {tokens : List Token}
    (h : Spells tokens (linesSpelling stmts)) (free : Nat) (final position : Position) :
    let results := Piece.results (pieces (statement .standard (.ofLevels .standard free)) final
      (tokens ++ [.endMarker position]))
    results.1 = stmts.filter (fun stmt => stmt.levels ≤ free) ∧
      results.2.map (·.cause) =
        (stmts.filter (fun stmt => free < stmt.levels)).map (fun _ => .tooDeep nestingLimit) := by
  induction stmts generalizing tokens with
  | nil =>
    obtain rfl := h.of_nil
    rw [List.nil_append, pieces_of_endOfInput rfl]
    exact ⟨rfl, rfl⟩
  | cons stmt stmts ih =>
    simp only [blockIsWellFormed, Bool.and_eq_true] at hwf
    have hline : ∃ first stop rest next, tokens ++ [.endMarker position] = first ++ (stop ++ rest) ∧
        Spells first stmt.spelling ∧ Ends next stop ∧ (frontToken final rest).kind = next ∧
        next ≠ .elseWord ∧ next ≠ .closeBrace ∧
        ∃ others, rest = others ++ [.endMarker position] ∧ Spells others (linesSpelling stmts) := by
      cases stmts with
      | nil =>
        exact ⟨tokens, [], [.endMarker position], .endOfInput, rfl, h, .outside (.inr rfl), rfl,
          by decide, by decide, [], rfl, rfl⟩
      | cons second stmts =>
        obtain ⟨first, stop, others, rfl, hfirst, hstop, hothers⟩ := h.of_lines
        have hwf' := hwf.2
        simp only [blockIsWellFormed, Bool.and_eq_true] at hwf'
        obtain ⟨token, tail, rfl, hkind⟩ := exists_cons_of_lines hwf'.1 hothers
        refine ⟨first, [stop], token :: tail ++ [.endMarker position], token.kind, by simp, hfirst,
          .terminator hstop, rfl, ?_, ?_, token :: tail, rfl, hothers⟩
        · intro heq
          rw [heq] at hkind
          cases hkind
        · intro heq
          rw [heq] at hkind
          cases hkind
    obtain ⟨first, stop, rest, next, heq, hfirst, hstop, hrest, hword, hbrace, others, rfl, hothers⟩ :=
      hline
    obtain ⟨hstmts, herrors⟩ := ih hwf.2 hothers
    have hresults := @results_of_line _ _ free final _ _ _ hwf.1 hfirst hstop hrest hword hbrace
    rw [← heq] at hresults
    dsimp only at hresults ⊢
    split at hresults
    · rename_i henough
      have hnot : ¬ free < stmt.levels := Nat.not_lt.2 henough
      rw [hresults, hstmts, herrors, List.filter_cons_of_pos (by simpa using henough),
        List.filter_cons_of_neg (by simpa using hnot)]
      exact ⟨rfl, rfl⟩
    · rename_i hnot
      have hdeep : free < stmt.levels := Nat.lt_of_not_le hnot
      obtain ⟨position', hresults⟩ := hresults
      rw [hresults, List.map_cons, hstmts, herrors, List.filter_cons_of_neg (by simpa using hnot),
        List.filter_cons_of_pos (by simpa using hdeep)]
      exact ⟨rfl, rfl⟩

/-- A rendered program is parsed back but for the statements that need too many levels, of which
each gives an error; nothing else is lost. -/
theorem parse_render (program : Program) (hwf : program.isWellFormed) (file file' : String) :
    let parsed := parse (tokenize program.render file) file'
    parsed.program.statements = program.statements.filter (fun stmt => stmt.levels ≤ nestingLimit) ∧
      parsed.errors.map (·.cause) =
        (program.statements.filter (fun stmt => nestingLimit < stmt.levels)).map
          (fun _ => .tooDeep nestingLimit) ∧
      (parsed.program = program ∧ parsed.errors = [] ↔
        ∀ stmt ∈ program.statements, stmt.levels ≤ nestingLimit) := by
  intro parsed
  obtain ⟨tokens, final, heq, hspells⟩ := tokenize_render hwf file
  have hlines := results_of_lines hwf hspells nestingLimit
    (endPosition (tokens ++ [.endMarker final]) file') final
  rw [← heq] at hlines
  obtain ⟨hstmts, herrors⟩ : parsed.program.statements = _ ∧ parsed.errors.map (·.cause) = _ := hlines
  refine ⟨hstmts, herrors, ?_⟩
  constructor
  · rintro ⟨hprogram, -⟩ stmt hstmt
    rw [← hprogram, hstmts] at hstmt
    exact of_decide_eq_true (List.mem_filter.1 hstmt).2
  · intro hall
    have hkept : program.statements.filter (fun stmt => stmt.levels ≤ nestingLimit) =
        program.statements := List.filter_eq_self.2 fun stmt h => decide_eq_true (hall stmt h)
    have hdropped : program.statements.filter (fun stmt => nestingLimit < stmt.levels) = [] :=
      List.filter_eq_nil_iff.2 fun stmt h => by simpa using hall stmt h
    rw [hdropped, List.map_nil, List.map_eq_nil_iff] at herrors
    rw [hkept] at hstmts
    exact ⟨congrArg Program.mk hstmts, herrors⟩

/-- Of three statements the second needs one level too many. -/
theorem parse_render_of_deep_negation :
    let first : Stmt := .binding "x" (.binary (.number ⟨false, 1023 <<< 52, by decide⟩) .plus
      (.call "f" [.string "a\n"]))
    let deep : Stmt := .expression (Nat.repeat (.unary .not) 64 (.boolean true))
    let last : Stmt := .expression (.conditional (.unary .not (.identifier "x")) [.result (.command "ls")]
      (some []))
    let program : Program := ⟨[first, deep, last]⟩
    let parsed := parse (tokenize program.render "shell") "shell"
    program.isWellFormed ∧ parsed.program.statements = [first, last] ∧
      parsed.errors.map (·.cause) = [.tooDeep nestingLimit] := by
  intro first deep last program parsed
  have hwf : program.isWellFormed := by decide
  obtain ⟨hstmts, herrors, -⟩ := parse_render program hwf "shell" "shell"
  exact ⟨hwf, hstmts, herrors⟩

end ShellFrontend
