import ShellFrontend.Proofs.Acceptance
import ShellFrontend.Proofs.ClosedBlocks
import ShellFrontend.Proofs.Terminators

/-! # Programs between braces

A program and the contents of a block are the same lists of statements: an accepted program between
braces is a block, unless the braces open one level too many, and what is read as a single block is
an accepted program between braces.
-/

set_option autoImplicit false

namespace ShellFrontend

theorem balanced_of_results {stmt : Advancing Stmt} (hstmt : stmt.ReadsStatement 0 0)
    {final : Position} {tokens : List Token} (hend : ∀ token ∈ tokens, token.kind ≠ .endOfInput)
    (h : (Piece.results (pieces stmt final tokens)).2 = []) :
    Balanced .openBrace .closeBrace tokens := by
  fun_induction pieces stmt final tokens with
  | case1 => rfl
  | case2 token rest hkind => exact absurd hkind (hend token List.mem_cons_self)
  | case3 token rest _ hstop ih =>
    rw [Balanced, openAfter_of_terminator hstop (by decide) (by decide)]
    exact ih (List.forall_mem_cons.1 hend).2 h
  | case4 token rest _ _ value left started hrun ih =>
    rcases hstmt.ok hrun with ⟨read, stop, heq, hstop, hread, -⟩ | ⟨read, heq, hread, -⟩
    · rw [heq, List.forall_mem_append, List.forall_mem_cons] at hend
      rw [heq, Balanced, openAfter_append hread.openAfter_braces,
        openAfter_of_terminator hstop (by decide) (by decide)]
      exact ih hend.2.2 h
    · rw [heq, List.forall_mem_append] at hend
      rw [heq, Balanced, openAfter_append hread.openAfter_braces]
      exact ih hend.2 h
  | case5 token rest _ _ error failed started hrun left ih => cases h

namespace Derives

variable {levels : Nat} {phrase : List Token} {next : Kind} {opening closing : Token}

theorem areTerminators_of_nil (h : Derives .body levels phrase next []) : AreTerminators phrase := by
  induction phrase with
  | nil => exact List.forall_mem_nil _
  | cons token phrase ih =>
    generalize htokens : token :: phrase = tokens at h
    generalize hbody : ([] : List Stmt) = body at h
    cases h with
    | emptyBody => cases htokens
    | emptyStatement hstop h =>
      obtain ⟨rfl, rfl⟩ := List.cons.inj htokens
      subst hbody
      exact List.forall_mem_cons.2 ⟨hstop, ih h⟩
    | statements => cases hbody

theorem statement_of_body {stmt : Stmt}
    (h : Derives .body levels (opening :: phrase ++ [closing]) next [stmt])
    (hopening : opening.kind ≠ .terminator) (hclosing : closing.kind ≠ .terminator) :
    ∃ levels' ≤ levels, Derives .statement levels' (opening :: phrase ++ [closing]) next stmt := by
  generalize htokens : opening :: phrase ++ [closing] = tokens at h
  generalize hbody : [stmt] = body at h
  cases h with
  | emptyBody => cases htokens
  | emptyStatement hstop =>
    obtain ⟨rfl, -⟩ := List.cons.inj htokens
    exact absurd hstop hopening
  | @statements levels levels' phrase phrase' _ _ _ h tail =>
    obtain ⟨rfl, rfl⟩ := List.cons.inj hbody
    rcases List.eq_nil_or_concat phrase' with rfl | ⟨before, last, rfl⟩
    · exact ⟨levels, Nat.le_max_left .., by rwa [List.append_nil]⟩
    · rw [List.concat_eq_append, ← List.append_assoc] at htokens
      obtain ⟨-, hlast⟩ := List.append_inj' htokens rfl
      obtain rfl := List.singleton_inj.1 hlast
      exact absurd (tail.areTerminators_of_nil _ (by simp)) hclosing

theorem block_of_statement {stmt : Stmt} {first : Token}
    (h : Derives .statement levels (first :: phrase) next stmt) (hfirst : first.kind = .openBrace) :
    ∃ body, stmt = .block body ∧ Derives .block levels (first :: phrase) next body := by
  generalize htokens : first :: phrase = tokens at h
  cases h with
  | binding hword | result hword =>
    obtain ⟨rfl, -⟩ := List.cons.inj htokens
    rw [hfirst] at hword
    cases hword
  | expression h =>
    obtain ⟨token, rest, rfl, hkind⟩ := h.starts
    obtain ⟨rfl, -⟩ := List.cons.inj htokens
    rw [hfirst] at hkind
    cases hkind
  | blockStatement h => exact ⟨_, rfl, h⟩

theorem body_of_block {body : List Stmt}
    (h : Derives .block levels (opening :: phrase ++ [closing]) next body) :
    ∃ levels' < levels, Derives .body levels' phrase .closeBrace body := by
  generalize htokens : opening :: phrase ++ [closing] = tokens at h
  cases h with
  | block _ h =>
    obtain ⟨hfront, -⟩ := List.append_inj' htokens rfl
    obtain ⟨-, rfl⟩ := List.cons.inj hfront
    exact ⟨_, Nat.lt_succ_self _, h⟩

end Derives

section braced

variable {tokens : List Token} {opening closing : Token}

theorem results_braced (file : String) (hend : ∀ token ∈ tokens, token.kind ≠ .endOfInput)
    (hopening : opening.kind = .openBrace) (hclosing : closing.kind = .closeBrace)
    (haccepted : (parse tokens file).errors = []) :
    Piece.results (parse (opening :: tokens ++ [closing]) file).pieces =
        ([.block (parse tokens file).program.statements], []) ∨
      ¬ DerivesWithin .body (nestingLimit - 1) tokens .endOfInput
          (parse tokens file).program.statements ∧
        ∃ position, Piece.results (parse (opening :: tokens ++ [closing]) file).pieces =
          ([], [⟨.tooDeep nestingLimit, position⟩]) := by
  have hstarts : opening.kind.startsPiece := by rw [hopening]; rfl
  have hdecides : ∀ {levels stmts}, Derives .body levels tokens .endOfInput stmts →
      (statement .standard (.ofLevels .standard nestingLimit)).Decides
        (endPosition (opening :: tokens ++ [closing]) file) (opening :: tokens ++ [closing])
        (levels + 1 ≤ nestingLimit) (.block stmts) [] := by
    intro levels stmts hbody
    have hblock : Derives .statement (levels + 1) (opening :: tokens ++ [closing]) .endOfInput
        (.block stmts) :=
      .blockStatement (.block hopening (hbody.retarget (.inl rfl)) hclosing)
    have hrun := hblock.accepts (endPosition (opening :: tokens ++ [closing]) file) nestingLimit []
      rfl (by decide)
    rwa [List.append_nil] at hrun
  -- The braces open one level around all that the program opens.
  by_cases hwithin : DerivesWithin .body (nestingLimit - 1) tokens .endOfInput
      (parse tokens file).program.statements
  · left
    obtain ⟨levels, hlevels, hbody⟩ := hwithin
    obtain ⟨started, hrun⟩ := (hdecides hbody).ok (Nat.succ_le_succ hlevels)
    apply (results_of_ok hstarts hrun).trans
    rw [pieces_nil]
    rfl
  · right
    obtain ⟨levels, -, hbody⟩ := derivesWithin_of_parse hend haccepted
    obtain ⟨position, left, started, hrun⟩ := (hdecides hbody).fail fun henough =>
      hwithin ⟨levels, Nat.le_sub_one_of_lt henough, hbody⟩
    have hbalanced : Balanced .openBrace .closeBrace tokens :=
      balanced_of_results (statement_readsStatement .standard (Layer.ofLevels_reads .standard _) 0 0)
        hend haccepted
    have hskip : skipStatement 0 0 (opening :: (tokens ++ [closing])) = [] :=
      Recovery.skipStatement_block hopening hclosing hend hbalanced 0 0 []
    refine ⟨hwithin, position, (results_of_fail hstarts hrun hskip).trans ?_⟩
    rw [pieces_nil]
    rfl

theorem parse_of_braced {file : String} {stmt : Stmt}
    (hend : ∀ token ∈ tokens, token.kind ≠ .endOfInput)
    (hopening : opening.kind = .openBrace) (hclosing : closing.kind = .closeBrace)
    (haccepted : (parse (opening :: tokens ++ [closing]) file).errors = [])
    (hsingle : (parse (opening :: tokens ++ [closing]) file).program.statements = [stmt]) :
    ∃ body, stmt = .block body ∧ (parse tokens file).program = ⟨body⟩ ∧
      (parse tokens file).errors = [] := by
  have hend' : ∀ token ∈ opening :: tokens ++ [closing], token.kind ≠ .endOfInput := by
    rw [List.forall_mem_append, List.forall_mem_cons, List.forall_mem_singleton]
    exact ⟨⟨by simp [hopening], hend⟩, by simp [hclosing]⟩
  obtain ⟨levels, hlevels, hbody⟩ := derivesWithin_of_parse hend' haccepted
  rw [hsingle] at hbody
  obtain ⟨levels', hlevels', hstmt⟩ :=
    hbody.statement_of_body (by simp [hopening]) (by simp [hclosing])
  obtain ⟨body, rfl, hblock⟩ := hstmt.block_of_statement hopening
  obtain ⟨levels'', hlevels'', hinner⟩ := hblock.body_of_block
  have hwithin : DerivesWithin .body nestingLimit tokens .endOfInput body :=
    ⟨levels'', by omega, hinner.retarget (.inr rfl)⟩
  exact ⟨body, rfl, parse_of_derivesWithin hwithin file⟩

/-- An accepted program between braces is one block of the same statements, or it needs all levels
and fails as a whole because the braces open one more; and a single statement that is read between
braces is the block of an accepted program. -/
theorem parse_braced (file : String) (hend : ∀ token ∈ tokens, token.kind ≠ .endOfInput)
    (hopening : opening.kind = .openBrace) (hclosing : closing.kind = .closeBrace) :
    let inner := parse tokens file
    let braced := parse (opening :: tokens ++ [closing]) file
    (inner.errors = [] →
        (braced.program.statements = [.block inner.program.statements] ∧ braced.errors = []) ∨
          (¬ DerivesWithin .body (nestingLimit - 1) tokens .endOfInput inner.program.statements ∧
            braced.program.statements = [] ∧
            ∃ position, braced.errors = [⟨.tooDeep nestingLimit, position⟩])) ∧
      ∀ stmt, braced.errors = [] → braced.program.statements = [stmt] →
        stmt = .block inner.program.statements ∧ inner.errors = [] := by
  intro inner braced
  constructor
  · intro haccepted
    rcases results_braced file hend hopening hclosing haccepted with
      hresults | ⟨hwithin, position, hresults⟩
    · exact .inl (Prod.mk.inj hresults)
    · obtain ⟨hstmts, herrors⟩ := Prod.mk.inj hresults
      exact .inr ⟨hwithin, hstmts, position, herrors⟩
  · intro stmt haccepted hsingle
    obtain ⟨body, rfl, hprogram, herrors⟩ :=
      parse_of_braced hend hopening hclosing haccepted hsingle
    have hinner : inner.program = ⟨body⟩ := hprogram
    rw [hinner]
    exact ⟨rfl, herrors⟩

/-- Braces around 126 negations open the last level, and around 127 one more than there is. -/
theorem parse_braced_of_negations :
    let word (kind : Kind) (text : String) : Token := ⟨kind, text, .between "shell" 0 0⟩
    let opening := word .openBrace "\x7b"
    let closing := word .closeBrace "\x7d"
    let negations (count : Nat) := List.replicate count (word .bang "!") ++ [word .trueWord "true"]
    let inner (count : Nat) := parse (negations count) "shell"
    let braced (count : Nat) := parse (opening :: negations count ++ [closing]) "shell"
    (∀ token ∈ negations 126, token.kind ≠ .endOfInput) ∧
      (∀ token ∈ negations 127, token.kind ≠ .endOfInput) ∧
      opening.kind = .openBrace ∧ closing.kind = .closeBrace ∧
      (inner 126).errors = [] ∧ (inner 127).errors = [] ∧
      (braced 126).program.statements = [.block (inner 126).program.statements] ∧
      (braced 127).program.statements = [] := by
  intro word opening closing negations inner braced
  have hend : ∀ count, ∀ token ∈ negations count, token.kind ≠ .endOfInput := by
    intro count token htoken
    rcases List.mem_append.1 htoken with htoken | htoken
    · rw [List.eq_of_mem_replicate htoken]
      exact Kind.noConfusion
    · rw [List.mem_singleton.1 htoken]
      exact Kind.noConfusion
  have hopening : opening.kind = .openBrace := rfl
  have hclosing : closing.kind = .closeBrace := rfl
  have hshallow : (inner 126).errors = [] := by decide +kernel
  have hdeep : (inner 127).errors = [] := by decide +kernel
  have haccepted : (braced 126).errors = [] := by decide +kernel
  have hrefused : (braced 127).errors ≠ [] := by decide +kernel
  refine ⟨hend 126, hend 127, hopening, hclosing, hshallow, hdeep, ?_, ?_⟩
  · rcases (parse_braced "shell" (hend 126) hopening hclosing).1 hshallow with
      h | ⟨-, -, position, h⟩
    · exact h.1
    · rw [haccepted] at h
      cases h
  · rcases (parse_braced "shell" (hend 127) hopening hclosing).1 hdeep with h | h
    · exact absurd h.2 hrefused
    · exact h.2.1

end braced

end ShellFrontend
