import ShellFrontend.Proofs.Completeness
import ShellFrontend.Proofs.Consequences
import ShellFrontend.Proofs.GrammarStops
import ShellFrontend.Proofs.LevelLimit
import ShellFrontend.Proofs.SessionRuns
import ShellFrontend.Token.Tokenize

/-! # Where a statement cannot go on

A statement parser that fails for another reason than its levels stops at the first token with
which no statement goes on. What was read can be completed; and since the reply depends on nothing
behind the front of what is left, and more levels do not change it, a statement that began with
what was read and the token would have been read to its end.

Only the `else` of a conditional is looked for behind a line break, so that a line break behind the
consequence may be refused that could have stood in front of an `else`.
-/

set_option autoImplicit false

namespace ShellFrontend

/-- The tokens of a statement with its end, which is one of its own tokens, a closing brace or end
marker behind them, or that no token follows. -/
inductive IsStatement : List Token → Prop
  | ended {levels : Nat} {phrase : List Token} {stmt : Stmt}
      (h : Derives .statement levels phrase .endOfInput stmt) : IsStatement phrase
  | closed {levels : Nat} {phrase : List Token} {stmt : Stmt} {closing : Token}
      (h : Derives .statement levels phrase closing.kind stmt)
      (hclosing : closing.kind = .closeBrace ∨ closing.kind = .endOfInput) :
      IsStatement (phrase ++ [closing])

/-- Tokens that some others complete to a statement. -/
def BeginsStatement (tokens : List Token) : Prop :=
  ∃ suffix, IsStatement (tokens ++ suffix)

theorem BeginsStatement.of_viable {read : List Token} (h : Symbol.statement.Viable read) :
    BeginsStatement read := by
  obtain ⟨_, levels, stmt, ⟨suffix, rfl⟩, hstmt⟩ := h.behind Symbol.statement_admits_endOfInput
  exact ⟨suffix, .ended hstmt⟩

theorem IsStatement.elsesBelong {tokens : List Token} (h : IsStatement tokens) :
    ElsesBelong [] tokens := by
  cases h with
  | ended h => exact h.elsesBelong trivial
  | closed h hclosing =>
    refine (h.elsesBelong trivial).append (.cons (fun hword => ?_) .nil)
    rcases hclosing with hkind | hkind <;> simp [hkind] at hword

theorem IsStatement.endsInConsequence {read suffix : List Token} {stop : Token}
    (h : IsStatement (read ++ stop :: suffix)) (helse : elseOnNextLine (stop :: suffix)) :
    EndsInConsequence read := by
  cases suffix with
  | nil => cases helse
  | cons word tail =>
    obtain ⟨hbreak, hword⟩ : stop.isLineBreak ∧ word.kind = .elseWord := by
      simpa [elseOnNextLine] using helse
    have htakes : TakesElse (read ++ [stop]) := h.elsesBelong (List.append_cons ..) hword
    exact htakes.endsInConsequence (Token.kind_of_isLineBreak hbreak)

theorem IsStatement.of_run (free : Nat) (final : Position) {tokens : List Token}
    (hok : ((statement .standard (.ofLevels .standard free)).run final tokens).result.isOk)
    (hrest : ((statement .standard (.ofLevels .standard free)).run final tokens).rest = []) :
    IsStatement tokens := by
  cases hrun : (statement .standard (.ofLevels .standard free)).run final tokens with
  | fail error rest started =>
    rw [hrun] at hok
    cases hok
  | ok stmt rest started =>
    rw [hrun] at hrest
    obtain rfl : rest = [] := hrest
    obtain ⟨phrase, rfl, levels, -, hstmt⟩ := statement_yields (Layer.ofLevels_sound free) hrun
    rw [List.append_nil]
    exact .ended hstmt

section fails

variable {free : Nat} {final : Position} {read rest : List Token} {stuck : Token}
  {error : SyntaxError} {started : List Kind}

theorem statement_fails_before
    (hrun : (statement .standard (.ofLevels .standard free)).run final (read ++ stuck :: rest) =
      .fail error (stuck :: rest) started)
    (hcause : ∀ limit, error.cause ≠ .tooDeep limit) {free' : Nat} (hle : free ≤ free')
    {suffix : List Token}
    (helse : elseOnNextLine (stuck :: suffix) → elseOnNextLine (stuck :: rest)) (final' : Position) :
    (statement .standard (.ofLevels .standard free')).run final' (read ++ stuck :: suffix) =
      .fail error (stuck :: suffix) started := by
  have hrun' : (statement .standard (.ofLevels .standard free')).run final (read ++ stuck :: rest) =
      .fail error (stuck :: rest) started := by
    -- It was not the levels that ran out, so that more of them change nothing.
    rcases statement_refined .standard (Layer.ofLevels_refined .standard hle) final
      (read ++ stuck :: rest) with heq | ⟨limit, position, left, started', hout⟩
    · exact heq.trans hrun
    · rw [hrun] at hout
      cases hout
      exact absurd rfl (hcause limit)
  obtain ⟨-, read', _, _, hread, -, hsame⟩ := (statement_readsStatement .standard
    (Layer.ofLevels_reads .standard free') 0 0).fail hrun'
  obtain rfl := List.append_cancel_right hread
  exact hsame ⟨rfl, helse⟩

theorem not_isStatement_of_fail
    (hrun : (statement .standard (.ofLevels .standard free)).run final (read ++ stuck :: rest) =
      .fail error (stuck :: rest) started)
    (hcause : ∀ limit, error.cause ≠ .tooDeep limit) {suffix : List Token}
    (helse : elseOnNextLine (stuck :: suffix) → elseOnNextLine (stuck :: rest)) :
    ¬ IsStatement (read ++ stuck :: suffix) := by
  -- A derivation would be found with as many levels as it has open.
  have hnot : ∀ {levels phrase next stmt behind}, phrase ++ behind = read ++ stuck :: suffix →
      (frontToken final behind).kind = next → next ≠ .elseWord →
        ¬ Derives .statement levels phrase next stmt := by
    intro levels phrase next stmt behind hphrase hfront hne hstmt
    obtain ⟨_, hok⟩ := (hstmt.accepts final (max levels free) behind hfront hne).ok
      (Nat.le_max_left ..)
    rw [hphrase, statement_fails_before hrun hcause (Nat.le_max_right levels free) helse] at hok
    cases hok
  intro h
  generalize htokens : read ++ stuck :: suffix = tokens at h
  cases h with
  | ended hstmt => exact hnot ((List.append_nil _).trans htokens.symm) rfl Kind.noConfusion hstmt
  | closed hstmt hclosing =>
    refine hnot htokens.symm rfl ?_ hstmt
    rcases hclosing with hkind | hkind <;> simp [hkind]

end fails

namespace Session

/-- The error names the first token with which no statement goes on, but for a line break directly
behind the consequence of a conditional, which an `else` would have to follow. -/
theorem parseStatement_error {session after : Session} {error : SyntaxError}
    (hrules : session.rules = .standard)
    (hend : ∃ before last, session.tokens = before ++ [last] ∧ last.kind = .endOfInput)
    (hcursor : session.cursor < session.tokens.length)
    (hrun : session.parseStatement = (.error error, after))
    (hcause : ∀ limit, error.cause ≠ .tooDeep limit) :
    ∃ read stuck rest, session.remaining = read ++ stuck :: rest ∧
      after = { session with cursor := session.cursor + read.length } ∧
      error.position = stuck.span.start ∧ BeginsStatement read ∧
      ∀ suffix, IsStatement (read ++ stuck :: suffix) →
        elseOnNextLine (stuck :: suffix) ∧ ¬ elseOnNextLine (stuck :: rest) ∧
          EndsInConsequence read := by
  obtain ⟨left, started, hfail, rfl⟩ := exists_fail_of_run hrun
  rw [layer, hrules] at hfail
  obtain ⟨hposition, read, _, _, hread, hpassage, -⟩ := (statement_readsStatement .standard
    (Layer.ofLevels_reads .standard _) 0 0).fail hfail
  obtain ⟨read', hread', hviable⟩ := statement_stops (Layer.ofLevels_sound _)
    (Layer.ofLevels_viable _) hfail hcause
  obtain rfl : read' = read := List.append_cancel_right (hread'.symm.trans hread)
  have hleft : left ≠ [] := by
    rintro rfl
    obtain ⟨before, last, htokens, hlast⟩ := hend
    have hmem : last ∈ session.remaining := by
      rw [htokens, List.length_append, List.length_singleton] at hcursor
      rw [remaining, htokens, List.drop_append_of_le_length (Nat.le_of_lt_succ hcursor)]
      exact List.mem_append_right _ (List.mem_singleton_self last)
    rw [hread, List.append_nil] at hmem
    exact hpassage.kind_ne_endOfInput last hmem hlast
  obtain ⟨stuck, rest, rfl⟩ := List.exists_cons_of_ne_nil hleft
  rw [hread] at hfail
  refine ⟨read', stuck, rest, hread, ?_, hposition, .of_viable hviable, fun suffix hstmt => ?_⟩
  · rw [hread, List.length_append, Nat.add_sub_cancel]
  · obtain ⟨hnext, hnot⟩ := Classical.not_imp.1 fun helse =>
      not_isStatement_of_fail hfail hcause helse hstmt
    exact ⟨hnext, hnot, hstmt.endsInConsequence hnext⟩

theorem parseStatement_error_of_missing_assign :
    let session := (start (tokenize "let x 1" "shell") "shell").addStandardRules
    ∃ error after, session.parseStatement = (.error error, after) ∧ after.cursor = 2 ∧
      error.position = ⟨6, "shell"⟩ ∧ BeginsStatement (session.tokens.take 2) ∧
      ¬ BeginsStatement (session.tokens.take 3) := by
  intro session
  have hfails : (match session.parseStatement with
      | (.error error, after) =>
        error = ⟨.unexpected .assign .number "1", ⟨6, "shell"⟩⟩ && after.cursor = 2
      | _ => false) = true := by decide +kernel
  rcases hrun : session.parseStatement with ⟨error | value, after⟩
  · rw [hrun] at hfails
    obtain ⟨rfl, hcursor⟩ : error = _ ∧ after.cursor = 2 := by simpa using hfails
    have hend : ∃ before last, session.tokens = before ++ [last] ∧ last.kind = .endOfInput :=
      ⟨session.tokens.take 3, .endMarker ⟨7, "shell"⟩, by decide +kernel, rfl⟩
    obtain ⟨read, stuck, rest, hread, rfl, hposition, hbegins, hstuck⟩ :=
      parseStatement_error (Rules.override_empty _) hend (by decide +kernel) hrun
        fun limit => Cause.noConfusion
    have hlength : read.length = 2 := (Nat.zero_add _).symm.trans hcursor
    have htokens : session.tokens = read ++ stuck :: rest := hread
    have hthird : session.tokens[2]?.map Token.isLineBreak = some false := by decide +kernel
    have hbreak : stuck.isLineBreak = false := by
      rw [htokens, List.getElem?_append_right (Nat.le_of_eq hlength), hlength] at hthird
      simpa using hthird
    have htwo : session.tokens.take 2 = read := by rw [htokens, ← hlength, List.take_left]
    have hthree : session.tokens.take 3 = read ++ [stuck] := by
      rw [htokens, List.take_append, hlength, List.take_of_length_le (by omega)]
      rfl
    refine ⟨_, _, rfl, hcursor, rfl, htwo ▸ hbegins, ?_⟩
    rintro ⟨suffix, hstmt⟩
    rw [hthree, List.append_assoc] at hstmt
    obtain ⟨hnext, -, -⟩ := hstuck suffix hstmt
    rw [elseOnNextLine_cons ⟨0, ""⟩, hbreak] at hnext
    cases hnext
  · rw [hrun] at hfails
    cases hfails

/-- The line break in the parentheses could have stood in front of an `else`. -/
theorem parseStatement_error_at_line_break :
    let session := (start (tokenize "(if (a) \x7b \x7d\n)" "shell") "shell").addStandardRules
    ∃ error after, session.parseStatement = (.error error, after) ∧
      (∀ limit, error.cause ≠ .tooDeep limit) ∧ after.cursor = 7 ∧
      BeginsStatement (session.tokens.take 8) := by
  intro session
  have hfails : (match session.parseStatement with
      | (.error error, after) =>
        error.cause = .unexpected .closeParen .terminator "\n" && after.cursor = 7
      | _ => false) = true := by decide +kernel
  have hbegins : BeginsStatement (session.tokens.take 8) :=
    ⟨[.sample .elseWord, .sample .openBrace, .sample .closeBrace, .sample .closeParen],
      .of_run 3 session.final (by decide +kernel) (by decide +kernel)⟩
  rcases hrun : session.parseStatement with ⟨error | value, after⟩
  · rw [hrun] at hfails
    obtain ⟨hcause, hcursor⟩ : error.cause = _ ∧ after.cursor = 7 := by simpa using hfails
    exact ⟨error, after, rfl, fun limit => by simp [hcause], hcursor, hbegins⟩
  · rw [hrun] at hfails
    cases hfails

end Session

end ShellFrontend
