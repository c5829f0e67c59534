import ShellFrontend.Proofs.ClosedBlocks

/-! # The end marker

Nothing is read past an end marker, neither by a parser that looks one token ahead nor by recovery,
so what stands behind the first one decides nothing. Where the tokens run out without one, a marker
is seen in its place, where the last token stops.
-/

set_option autoImplicit false

namespace ShellFrontend

/-- Tokens at whose front a program ends, and others that show the same marker there. -/
structure SameEnd (final final' : Position) (rest rest' : List Token) : Prop where
  front : frontToken final rest = frontToken final' rest'
  ends : (frontToken final rest).kind = .endOfInput

namespace SameEnd

variable {final final' : Position} {rest rest' : List Token}

theorem symm (h : SameEnd final final' rest rest') : SameEnd final' final rest' rest :=
  ⟨h.front.symm, h.front ▸ h.ends⟩

theorem sameFront (h : SameEnd final final' rest rest') : SameFront final final' rest rest' where
  front := h.front
  elseOnNextLine := by
    intro hnext
    cases rest' with
    | nil => cases hnext
    | cons token tail =>
      have hend : token.kind = .endOfInput := h.symm.ends
      simp [elseOnNextLine_cons final', Token.isLineBreak, hend] at hnext

theorem not_startsStatement (h : SameEnd final final' rest rest') :
    Recovery.startsStatement rest = false := by
  cases rest with
  | nil => rfl
  | cons token tail =>
    have hend : token.kind = .endOfInput := h.ends
    simp [Recovery.startsStatement, hend]

theorem exists_left (h : SameEnd final final' rest rest') {tokens read left : List Token}
    (hread : ∀ token ∈ read, token.kind ≠ .endOfInput) (heq : tokens ++ rest = read ++ left) :
    ∃ more, tokens = read ++ more ∧ left = more ++ rest := by
  rcases List.append_eq_append_iff.1 heq with ⟨past, rfl, hrest⟩ | ⟨more, htokens, hleft⟩
  · cases past with
    | nil => exact ⟨[], by simp, hrest.symm⟩
    | cons token past =>
      have hend : token.kind = .endOfInput := by simpa [hrest] using h.ends
      exact absurd hend (hread token (by simp))
  · exact ⟨more, htokens, hleft⟩

theorem recovery_step (h : SameEnd final final' rest rest') (braces parens : Nat) (token : Token)
    (tokens : List Token) :
    Recovery.step braces parens token (tokens ++ rest) =
      Recovery.step braces parens token (tokens ++ rest') := by
  -- Recovery looks at one token behind a line break, and at the end that is no word.
  have hstarts : Recovery.startsStatement (tokens ++ rest) =
      Recovery.startsStatement (tokens ++ rest') := by
    cases tokens with
    | nil => exact h.not_startsStatement.trans h.symm.not_startsStatement.symm
    | cons first tokens => rfl
  rw [Recovery.step, Recovery.step, Recovery.endsAt, Recovery.endsAt, hstarts]

theorem skipStatement_end (h : SameEnd final final' rest rest') (braces parens : Nat) :
    skipStatement braces parens rest = rest := by
  cases rest with
  | nil => rfl
  | cons token tail =>
    have hend : token.kind = .endOfInput := h.ends
    rw [skipStatement, hend]

theorem exists_skipped (h : SameEnd final final' rest rest') (braces parens : Nat)
    {tokens : List Token} (htokens : ∀ token ∈ tokens, token.kind ≠ .endOfInput) :
    ∃ left, left <:+ tokens.tail ∧
      skipStatement braces parens (tokens ++ rest) = left ++ rest ∧
      skipStatement braces parens (tokens ++ rest') = left ++ rest' := by
  induction tokens generalizing braces parens with
  | nil =>
    exact ⟨[], List.suffix_refl _, h.skipStatement_end _ _, h.symm.skipStatement_end _ _⟩
  | cons token tokens ih =>
    obtain ⟨htoken, htokens⟩ := List.forall_mem_cons.1 htokens
    rw [List.cons_append, List.cons_append, Recovery.skipStatement_cons,
      Recovery.skipStatement_cons, ← h.recovery_step]
    cases Recovery.step braces parens token (tokens ++ rest) with
    | none => exact ⟨tokens, List.suffix_refl _, if_neg htoken, if_neg htoken⟩
    | some opened =>
      obtain ⟨left, hleft, hskip⟩ := ih opened.1 opened.2 htokens
      exact ⟨left, hleft.trans (List.tail_suffix _), hskip⟩

theorem pieces_end (h : SameEnd final final' rest rest') (stmt : Advancing Stmt) :
    pieces stmt final rest = [] := by
  cases rest with
  | nil => exact pieces_nil
  | cons token tail => exact pieces_of_endOfInput h.ends

end SameEnd

theorem Parser.ReadsStatement.ok_same {α : Type} {parser : Parser α} {braces parens : Nat}
    (h : parser.ReadsStatement braces parens) {final : Position} {tokens rest : List Token}
    {value : α} {started : List Kind} (hrun : parser.run final tokens = .ok value rest started) :
    ∃ read, tokens = read ++ rest ∧ (∀ token ∈ read, token.kind ≠ .endOfInput) ∧
      ∀ {final' rest'}, SameFront final final' rest rest' →
        parser.run final' (read ++ rest') = .ok value rest' started := by
  rcases h.ok hrun with ⟨read, stop, rfl, hstop, hread, hsame⟩ | ⟨read, rfl, hread, hsame⟩
  · refine ⟨read ++ [stop], by simp, ?_, fun hfront => ?_⟩
    · rw [List.forall_mem_append, List.forall_mem_singleton]
      exact ⟨hread.kind_ne_endOfInput, by simp [hstop]⟩
    · rw [List.append_assoc]
      exact hsame (hfront.cons stop).elseOnNextLine
  · exact ⟨read, rfl, hread.kind_ne_endOfInput, hsame⟩

section stmt

variable {stmt : Advancing Stmt} (hstmt : stmt.ReadsStatement 0 0)
  {final final' : Position} {rest rest' : List Token}

include hstmt

namespace SameEnd

variable {tokens left : List Token} {started : List Kind}

theorem exists_ok (h : SameEnd final final' rest rest') {value : Stmt}
    (hrun : stmt.run final (tokens ++ rest) = .ok value left started) :
    ∃ more, more <:+ tokens ∧ more.length < tokens.length ∧
      stmt.run final (tokens ++ rest) = .ok value (more ++ rest) started ∧
      stmt.run final' (tokens ++ rest') = .ok value (more ++ rest') started := by
  obtain ⟨read, heq, hread, hsame⟩ := hstmt.ok_same hrun
  obtain ⟨more, rfl, rfl⟩ := h.exists_left hread heq
  have hlt := stmt.rest_length_lt hrun
  rw [List.length_append, List.length_append] at hlt
  refine ⟨more, List.suffix_append _ _, Nat.lt_of_add_lt_add_right hlt, hrun, ?_⟩
  rw [List.append_assoc]
  exact hsame (h.sameFront.append more)

theorem exists_fail (h : SameEnd final final' rest rest') {error : SyntaxError}
    (hrun : stmt.run final (tokens ++ rest) = .fail error left started) :
    ∃ left', stmt.run final' (tokens ++ rest') = .fail error left' started := by
  obtain ⟨-, read, _, _, heq, hread, hsame⟩ := hstmt.fail hrun
  obtain ⟨more, rfl, rfl⟩ := h.exists_left hread.kind_ne_endOfInput heq
  refine ⟨more ++ rest', ?_⟩
  rw [List.append_assoc]
  exact hsame (h.sameFront.append more)

end SameEnd

/-- The same statements and errors are found in front of either end. -/
theorem results_before_end (h : SameEnd final final' rest rest') (tokens : List Token)
    (htokens : ∀ token ∈ tokens, token.kind ≠ .endOfInput) :
    Piece.results (pieces stmt final (tokens ++ rest)) =
      Piece.results (pieces stmt final' (tokens ++ rest')) := by
  have hsuffix : ∀ {left}, left <:+ tokens → ∀ token ∈ left, token.kind ≠ .endOfInput :=
    fun hleft token htoken => htokens token (hleft.mem htoken)
  cases tokens with
  | nil => rw [List.nil_append, List.nil_append, h.pieces_end, h.symm.pieces_end]
  | cons token tokens =>
    obtain ⟨htoken, hmore⟩ := List.forall_mem_cons.1 htokens
    by_cases hstop : token.kind = .terminator
    · rw [List.cons_append, List.cons_append, results_of_terminator hstop,
        results_of_terminator hstop]
      exact results_before_end h tokens hmore
    · have hstarts := Kind.startsPiece_of_ne htoken hstop
      cases hrun : stmt.run final (token :: tokens ++ rest) with
      | ok value left started =>
        obtain ⟨more, hleft, hlt, hrun, hrun'⟩ := h.exists_ok hstmt hrun
        apply (results_of_ok hstarts hrun).trans
        rw [results_before_end h more (hsuffix hleft)]
        exact (results_of_ok hstarts hrun').symm
      | fail error left started =>
        obtain ⟨left', hrun'⟩ := h.exists_fail hstmt hrun
        obtain ⟨skipped, hskipped, hskip, hskip'⟩ := h.exists_skipped 0 0 htokens
        have hlt : skipped.length < (token :: tokens).length :=
          Nat.lt_succ_of_le hskipped.length_le
        apply (results_of_fail hstarts hrun hskip).trans
        rw [results_before_end h skipped (hsuffix (hskipped.trans (List.tail_suffix _)))]
        exact (results_of_fail hstarts hrun' hskip').symm
termination_by tokens.length

end stmt

/-- What stands behind an end marker is not looked at, and a marker that says no more than where
the last token stops may be left out. -/
theorem parse_append_endMarker {tokens : List Token} {stop : Token} (file : String)
    (htokens : ∀ token ∈ tokens, token.kind ≠ .endOfInput) (hstop : stop.kind = .endOfInput)
    (rest : List Token) :
    ((parse (tokens ++ [stop] ++ rest) file).program = (parse (tokens ++ [stop]) file).program ∧
        (parse (tokens ++ [stop] ++ rest) file).errors = (parse (tokens ++ [stop]) file).errors) ∧
      (stop.text = "EOF" → stop.span = ⟨endPosition tokens file, endPosition tokens file⟩ →
        (parse (tokens ++ [stop]) file).program = (parse tokens file).program ∧
          (parse (tokens ++ [stop]) file).errors = (parse tokens file).errors) := by
  have hstmt := statement_readsStatement .standard
    (Layer.ofLevels_reads .standard nestingLimit) 0 0
  constructor
  · have hresults := results_before_end hstmt
      (⟨rfl, hstop⟩ : SameEnd (endPosition (tokens ++ stop :: rest) file)
        (endPosition (tokens ++ [stop]) file) (stop :: rest) [stop]) tokens htokens
    rw [List.append_assoc, List.singleton_append]
    obtain ⟨hstmts, herrors⟩ := Prod.mk.inj hresults
    exact ⟨congrArg Program.mk hstmts, herrors⟩
  · intro htext hspan
    have hmarker : stop = .endMarker (endPosition tokens file) := by
      obtain ⟨kind, text, span⟩ := stop
      obtain rfl : kind = .endOfInput := hstop
      obtain rfl : text = "EOF" := htext
      obtain rfl := hspan
      rfl
    have hresults := results_before_end hstmt
      (⟨hmarker, hstop⟩ : SameEnd (endPosition (tokens ++ [stop]) file) (endPosition tokens file)
        [stop] []) tokens htokens
    rw [List.append_nil] at hresults
    obtain ⟨hstmts, herrors⟩ := Prod.mk.inj hresults
    exact ⟨congrArg Program.mk hstmts, herrors⟩

/-- The `else` behind the marker does not belong to the conditional in front of it. -/
theorem parse_append_endMarker_of_else :
    let tokens := (tokenize "let = 1\nif (a) \x7b \x7d\n" "shell").dropLast
    let stop : Token := .endMarker ⟨19, "shell"⟩
    let rest := tokenize "else \x7b \x7d" "shell"
    (∀ token ∈ tokens, token.kind ≠ .endOfInput) ∧ stop.kind = .endOfInput ∧ stop.text = "EOF" ∧
      stop.span = ⟨endPosition tokens "shell", endPosition tokens "shell"⟩ ∧
      (parse tokens "shell").program.statements.length = 1 ∧
      (parse tokens "shell").errors.length = 1 ∧
      (parse (tokens ++ [stop] ++ rest) "shell").program = (parse tokens "shell").program ∧
      (parse (tokens ++ [stop] ++ rest) "shell").errors = (parse tokens "shell").errors := by
  intro tokens stop rest
  have htokens : ∀ token ∈ tokens, token.kind ≠ .endOfInput := by decide +kernel
  have hspan : stop.span = ⟨endPosition tokens "shell", endPosition tokens "shell"⟩ := by
    decide +kernel
  have hparsed : (parse tokens "shell").program.statements.length = 1 ∧
      (parse tokens "shell").errors.length = 1 := by decide +kernel
  obtain ⟨hbehind, hmarker⟩ := parse_append_endMarker "shell" htokens (rfl : stop.kind = _) rest
  obtain ⟨hprogram, herrors⟩ := hmarker rfl hspan
  exact ⟨htokens, rfl, rfl, hspan, hparsed.1, hparsed.2, hbehind.1.trans hprogram,
    hbehind.2.trans herrors⟩

end ShellFrontend
