import ShellFrontend.Proofs.StatementBoundary
import ShellFrontend.Proofs.TokenOrder

/-! # Errors in source order

Errors come in source order unless a failed statement was read past a line break outside all
brackets and the `else` behind it: there, and only there, recovery ends in front of the error.
-/

set_option autoImplicit false

namespace ShellFrontend

/-- An `else` whose line break stands outside all brackets. -/
def HasOuterElse (tokens : List Token) : Prop :=
  ∃ before lineBreak word after, tokens = before ++ lineBreak :: word :: after ∧
    lineBreak.isLineBreak ∧ word.kind = .elseWord ∧
    Balanced .openBrace .closeBrace before ∧ Balanced .openParen .closeParen before

namespace Passage

variable {braces parens braces' parens' : Nat} {read : List Token}

theorem skipStatement_suffix (h : Passage 0 0 read braces parens) (helse : ¬ HasOuterElse read)
    (rest : List Token) : skipStatement 0 0 (read ++ rest) <:+ rest := by
  rcases h.recovers rest with hskip | ⟨before, lineBreak, word, after, rfl, hbreak, hword, hbefore, -⟩
  · rw [hskip]
    exact ShellFrontend.skipStatement_suffix _ _ _
  · exact absurd ⟨before, lineBreak, word, after, rfl, hbreak, hword,
      hbefore.openAfter_braces, hbefore.openAfter_parens⟩ helse

theorem skipStatement_eq_cons (h : Passage 0 0 read braces parens) (helse : HasOuterElse read)
    (rest : List Token) : ∃ word after, word ∈ read ∧ word.kind = .elseWord ∧
      skipStatement 0 0 (read ++ rest) = word :: after := by
  rcases h.recovers rest with hskip | ⟨before, lineBreak, word, after, rfl, hbreak, hword, -, hskip⟩
  · exfalso
    have hle := (ShellFrontend.skipStatement_suffix braces parens rest).length_le
    rw [← hskip] at hle
    obtain ⟨before, lineBreak, word, after, rfl, hbreak, hword, hbraces, hparens⟩ := helse
    have hend : ∀ token ∈ before, token.kind ≠ .endOfInput := fun token htoken =>
      h.kind_ne_endOfInput token (List.mem_append_left _ htoken)
    rw [List.append_assoc, List.cons_append] at hle
    rcases skipStatement_at_boundary (Token.kind_of_isLineBreak hbreak) hend hbraces hparens
      (Nat.zero_le _) with hstop | ⟨left, -, -, hstop⟩
    all_goals
      rw [hstop] at hle
      simp only [List.length_append, List.length_cons] at hle
      omega
  · exact ⟨word, after ++ rest, by simp, hword, hskip⟩

end Passage

theorem skipStatement_skips (braces parens : Nat) (tokens : List Token) :
    ∃ skipped, tokens = skipped ++ skipStatement braces parens tokens ∧
      ∀ token ∈ skipped, token.kind ≠ .endOfInput := by
  have hcons : ∀ {token : Token} {rest left : List Token}, token.kind ≠ .endOfInput →
      (∃ skipped, rest = skipped ++ left ∧ ∀ token ∈ skipped, token.kind ≠ .endOfInput) →
      ∃ skipped, token :: rest = skipped ++ left ∧ ∀ token ∈ skipped, token.kind ≠ .endOfInput := by
    rintro token _ left htoken ⟨skipped, rfl, hskipped⟩
    exact ⟨token :: skipped, rfl, List.forall_mem_cons.2 ⟨htoken, hskipped⟩⟩
  have hnone : ∀ left : List Token,
      ∃ skipped, left = skipped ++ left ∧ ∀ token ∈ skipped, token.kind ≠ .endOfInput :=
    fun left => ⟨[], rfl, fun _ h => absurd h List.not_mem_nil⟩
  fun_induction skipStatement braces parens tokens with
  | case1 => exact hnone _
  | case2 => exact hnone _
  | case3 _ _ _ _ hkind => exact hcons (by simp [hkind]) (hnone _)
  | case6 _ _ _ hkind => exact hcons (by simp [hkind]) (hnone _)
  | _ => exact hcons (by simp_all) ‹_›

namespace InSourceOrder

variable {read rest : List Token}

theorem of_append (h : InSourceOrder (read ++ rest))
    (hread : ∀ token ∈ read, token.kind ≠ .endOfInput) : InSourceOrder rest where
  ends := by
    obtain ⟨token, htoken, hend⟩ := h.ends
    rcases List.mem_append.1 htoken with htoken | htoken
    · exact absurd hend (hread token htoken)
    · exact ⟨token, htoken, hend⟩
  increase := (List.pairwise_append.1 h.increase).2.1

theorem takeWhile_append {token : Token} (h : InSourceOrder (read ++ token :: rest)) :
    ((read ++ token :: rest).takeWhile fun other => other.offset < token.offset) = read := by
  have hread : ∀ other ∈ read, decide (other.offset < token.offset) := fun other hother =>
    decide_eq_true ((List.pairwise_append.1 h.increase).2.2 other hother token List.mem_cons_self)
  rw [List.takeWhile_append_of_pos hread, List.takeWhile_cons_of_neg, List.append_nil]
  simp

end InSourceOrder

/-- The tokens of a failed piece in front of its error. -/
def Piece.readBefore (piece : Piece) (error : SyntaxError) : List Token :=
  piece.start.takeWhile fun token => token.offset < error.position.offset

section pieces

variable {stmt : Advancing Stmt} (hstmt : stmt.ReadsStatement 0 0)

include hstmt

theorem fail_read {final : Position} {tokens failed : List Token} {error : SyntaxError}
    {started : List Kind} (hrun : stmt.run final tokens = .fail error failed started)
    (h : InSourceOrder tokens) :
    ∃ read token rest braces parens, tokens = read ++ token :: rest ∧
      Passage 0 0 read braces parens ∧ error.position = token.span.start := by
  obtain ⟨hposition, read, braces, parens, rfl, hread, -⟩ := hstmt.fail hrun
  obtain ⟨token, hmem, -⟩ := (h.of_append hread.kind_ne_endOfInput).ends
  obtain ⟨first, rest, rfl⟩ := List.exists_cons_of_ne_nil (List.ne_nil_of_mem hmem)
  exact ⟨read, first, rest, braces, parens, rfl, hread, hposition⟩

theorem exists_token_of_mem_errors {final : Position} {tokens : List Token}
    (h : InSourceOrder tokens) {error : SyntaxError}
    (herror : error ∈ (pieces stmt final tokens).filterMap Piece.error?) :
    ∃ token ∈ tokens, error.position = token.span.start := by
  fun_induction pieces stmt final tokens with
  | case1 => cases herror
  | case2 => cases herror
  | case3 token rest hend hstop ih =>
    have hrest : InSourceOrder rest := @InSourceOrder.of_append [token] rest h (by simpa using hend)
    obtain ⟨other, hother, hposition⟩ := ih hrest herror
    exact ⟨other, List.mem_cons_of_mem _ hother, hposition⟩
  | case4 token rest hend hstop value left started hrun ih =>
    obtain ⟨read, heq, hread⟩ := hstmt.ok_read hrun
    rw [heq] at h ⊢
    obtain ⟨other, hother, hposition⟩ := ih (h.of_append hread) herror
    exact ⟨other, List.mem_append_right _ hother, hposition⟩
  | case5 token rest hend hstop error' failed started hrun left ih =>
    rcases List.mem_cons.1 herror with rfl | herror
    · obtain ⟨read, other, rest', _, _, heq, -, hposition⟩ := fail_read hstmt hrun h
      exact ⟨other, by simp [heq], hposition⟩
    · obtain ⟨skipped, heq, hskipped⟩ := skipStatement_skips 0 0 (token :: rest)
      rw [heq] at h ⊢
      obtain ⟨other, hother, hposition⟩ := ih (h.of_append hskipped) herror
      exact ⟨other, List.mem_append_right _ hother, hposition⟩

/-- The errors of the pieces are in order just if no failed statement was read past an outer
`else`, for a statement that cannot begin with an `else`. -/
theorem errors_pairwise_iff
    (helse : ∀ {final word rest}, word.kind = .elseWord →
      ∃ error started, stmt.run final (word :: rest) = .fail error (word :: rest) started)
    {final : Position} {tokens : List Token} (h : InSourceOrder tokens) :
    (((pieces stmt final tokens).filterMap Piece.error?).Pairwise
        fun a b => a.position.offset ≤ b.position.offset) ↔
      ∀ piece ∈ pieces stmt final tokens, ∀ error, piece.error? = some error →
        ¬ HasOuterElse (piece.readBefore error) := by
  fun_induction pieces stmt final tokens with
  | case1 => simp
  | case2 => simp
  | case3 token rest hend hstop ih =>
    have hrest : InSourceOrder rest := @InSourceOrder.of_append [token] rest h (by simpa using hend)
    simpa [List.filterMap_cons] using ih hrest
  | case4 token rest hend hstop value left started hrun ih =>
    obtain ⟨read, heq, hread⟩ := hstmt.ok_read hrun
    rw [heq] at h
    simpa [List.filterMap_cons] using ih (h.of_append hread)
  | case5 token rest hend hstop error failed started hrun left ih =>
    obtain ⟨read, first, behind, _, _, heq, hread, hposition⟩ := fail_read hstmt hrun h
    have hleft : InSourceOrder left := by
      obtain ⟨skipped, hskip, hskipped⟩ := skipStatement_skips 0 0 (token :: rest)
      rw [hskip] at h
      exact h.of_append hskipped
    rw [heq] at h
    have hfirst : error.position.offset = first.offset := congrArg Position.offset hposition
    have hbefore : Piece.readBefore ⟨token :: rest, left, .failed error started⟩ error = read := by
      simp only [Piece.readBefore, heq, hfirst]
      exact h.takeWhile_append
    simp only [List.filterMap_cons, Piece.error?_failed, List.pairwise_cons, List.forall_mem_cons,
      Option.some.injEq, forall_eq', hbefore, hfirst]
    refine and_congr ?_ (ih hleft)
    constructor
    · -- An outer `else` would be the next to fail, in front of the error.
      intro hsorted houter
      obtain ⟨word, after, hword, hkind, hskip⟩ :=
        hread.skipStatement_eq_cons houter (first :: behind)
      have hlow : word.offset < first.offset :=
        (List.pairwise_append.1 h.increase).2.2 word hword first List.mem_cons_self
      obtain ⟨later, started', hrun'⟩ := @helse final word after hkind
      have hlater : later.position = word.span.start := (hstmt.fail hrun').1
      have hmem : later ∈ (pieces stmt final left).filterMap Piece.error? := by
        rw [show left = word :: after by rw [← hskip, ← heq], pieces_of_fail (by rw [hkind]; rfl) hrun']
        simp
      have hle := hsorted later hmem
      rw [hlater] at hle
      exact absurd hlow (UInt32.not_lt.2 hle)
    · -- Recovery ends behind the error, and later errors stand at the tokens it left.
      intro hnone later hlater
      have hbehind : left <:+ first :: behind := by
        have hskip := hread.skipStatement_suffix hnone (first :: behind)
        rwa [← heq] at hskip
      obtain ⟨other, hother, hposition'⟩ := exists_token_of_mem_errors hstmt hleft hlater
      rw [hposition']
      rcases List.mem_cons.1 (hbehind.subset hother) with rfl | hother
      · exact UInt32.le_refl _
      · have hincrease := (List.pairwise_append.1 h.increase).2.1
        exact UInt32.le_of_lt ((List.pairwise_cons.1 hincrease).1 other hother)

end pieces

theorem statement_of_elseWord {word : Token} (h : word.kind = .elseWord) (levels : Nat)
    (final : Position) (rest : List Token) : ∃ error started,
      (statement .standard (.ofLevels .standard (levels + 1))).run final (word :: rest) =
        .fail error (word :: rest) started := by
  have hoperand : (operand .standard (.ofLevels .standard levels)).run final (word :: rest) =
      .fail ⟨Operand.notOperand word, word.span.start⟩ (word :: rest) [] := by
    rw [operand, Advancing.run_select, frontToken_cons, h]
    rfl
  have hexpr : ((Layer.ofLevels .standard (levels + 1)).expr .lowest).run final (word :: rest) =
      .fail ⟨Operand.notOperand word, word.span.start⟩ (word :: rest) [] :=
    Parser.run_bind_of_fail hoperand
  have hstatement : (Statement.expression (.ofLevels .standard (levels + 1))).run final (word :: rest) =
      .fail ⟨Operand.notOperand word, word.span.start⟩ (word :: rest) [] :=
    Parser.run_bind_of_fail hexpr
  refine ⟨⟨Operand.notOperand word, word.span.start⟩, [.elseWord], ?_⟩
  rw [statement, Advancing.run_select, frontToken_cons, h, Advancing.run_starting]
  exact congrArg (Reply.after [Kind.elseWord]) hstatement

/-- Errors come in source order just if no failed statement was read past an outer `else` before
its error. -/
theorem parse_errors_pairwise_iff (source file parserFile : String)
    (h : Text.byteLength source.toList < UInt32.size) :
    (parse (tokenize source file) parserFile).errors.Pairwise
        (fun a b => a.position.offset ≤ b.position.offset) ↔
      ∀ piece ∈ (parse (tokenize source file) parserFile).pieces,
        ∀ error, piece.error? = some error → ¬ HasOuterElse (piece.readBefore error) := by
  refine errors_pairwise_iff ?_ (fun hword => ?_) (tokenize_inSourceOrder file h)
  · exact statement_readsStatement _ (Layer.ofLevels_reads _ _) _ _
  · exact statement_of_elseWord hword _ _ _

/-- The error behind the `else` is reported before the one at the `else`. -/
theorem parse_errors_of_outer_else :
    let source := "if (a) \x7b \x7d\nelse \x7b let = 1 \x7d"
    let parsed := parse (tokenize source "shell") "shell"
    Text.byteLength source.toList < UInt32.size ∧
      parsed.errors.map (fun error => error.position.offset) = [22, 11] ∧
      ∃ piece ∈ parsed.pieces, ∃ error, piece.error? = some error ∧
        HasOuterElse (piece.readBefore error) := by
  intro source parsed
  have hbytes : Text.byteLength source.toList < UInt32.size := by decide
  have hoffsets : parsed.errors.map (fun error => error.position.offset) = [22, 11] := by
    decide +kernel
  have hunsorted : ¬ parsed.errors.Pairwise fun a b => a.position.offset ≤ b.position.offset := by
    intro hsorted
    have hmap := List.pairwise_map.2 hsorted
    rw [hoffsets] at hmap
    exact absurd hmap (by decide)
  refine ⟨hbytes, hoffsets, ?_⟩
  simpa using mt (parse_errors_pairwise_iff source "shell" "shell" hbytes).2 hunsorted

end ShellFrontend
