import ShellFrontend.Proofs.Acceptance
import ShellFrontend.Proofs.SourceOrder
import ShellFrontend.Proofs.Viability

/-! # Segments of a program

The tokens in front of the first end marker fall, in order, into segments: a skipped terminator, a
parsed statement, or a failed one with what recovery skipped. A parsed segment is the same
statement wherever it stands.
-/

set_option autoImplicit false

namespace ShellFrontend

section cut

variable (stmt : Advancing Stmt) (final : Position)

/-- What comes of a segment in front of `rest`. -/
inductive Segment (rest : List Token) : List Token → PieceOutcome → Prop
  | blank {stop : Token} (hstop : stop.kind = .terminator) : Segment rest [stop] .blank
  | parsed {first : Token} {more : List Token} {value : Stmt} {started : List Kind}
      (hfirst : first.kind.startsPiece)
      (hrun : stmt.run final (first :: more ++ rest) = .ok value rest started) :
      Segment rest (first :: more) (.parsed value started)
  | failed {first : Token} {more stuck : List Token} {error : SyntaxError} {started : List Kind}
      (hfirst : first.kind.startsPiece)
      (hrun : stmt.run final (first :: more ++ rest) = .fail error stuck started)
      (hskip : skipStatement 0 0 (first :: more ++ rest) = rest) :
      Segment rest (first :: more) (.failed error started)

/-- Tokens cut into segments up to their first end marker. -/
inductive Cut : List Token → List Piece → Prop
  | ended {rest : List Token} (hend : (frontToken final rest).kind = .endOfInput) : Cut rest []
  | segment {segment rest : List Token} {outcome : PieceOutcome} {pieces : List Piece}
      (hsegment : ∀ token ∈ segment, token.kind ≠ .endOfInput)
      (h : Segment stmt final rest segment outcome) (tail : Cut rest pieces) :
      Cut (segment ++ rest) (⟨segment ++ rest, rest, outcome⟩ :: pieces)

end cut

variable {stmt : Advancing Stmt} {final : Position}

theorem Segment.exists_cons {rest segment : List Token} {outcome : PieceOutcome}
    (h : Segment stmt final rest segment outcome) : ∃ first more, segment = first :: more := by
  cases h with
  | blank _ => exact ⟨_, _, rfl⟩
  | parsed _ _ => exact ⟨_, _, rfl⟩
  | failed _ _ _ => exact ⟨_, _, rfl⟩

private theorem exists_more {token : Token} {rest read left : List Token}
    (heq : token :: rest = read ++ left) (hlt : left.length < (token :: rest).length) :
    ∃ more, read = token :: more ∧ rest = more ++ left := by
  cases read with
  | nil => rw [heq] at hlt; exact absurd hlt (Nat.lt_irrefl _)
  | cons first more =>
    obtain ⟨rfl, hrest⟩ := List.cons.inj heq
    exact ⟨more, rfl, hrest⟩

/-- The loop cuts its tokens into segments. -/
theorem pieces_cut (hstmt : stmt.ReadsStatement 0 0) (tokens : List Token) :
    Cut stmt final tokens (pieces stmt final tokens) := by
  fun_induction pieces stmt final tokens with
  | case1 => exact .ended rfl
  | case2 token rest hend => exact .ended hend
  | case3 token rest hend hstop ih =>
    have hsegment : ∀ other ∈ [token], other.kind ≠ .endOfInput := by simpa using hend
    exact .segment hsegment (.blank hstop) ih
  | case4 token rest hend hstop value left started hrun ih =>
    have hfirst := Kind.startsPiece_of_ne hend hstop
    obtain ⟨read, heq, hread⟩ := hstmt.ok_read hrun
    obtain ⟨more, rfl, rfl⟩ := exists_more heq (stmt.rest_length_lt hrun)
    exact .segment hread (.parsed hfirst hrun) ih
  | case5 token rest hend hstop error failed started hrun left ih =>
    have hfirst := Kind.startsPiece_of_ne hend hstop
    have hskip : skipStatement 0 0 (token :: rest) = left := rfl
    have hlt : left.length < (token :: rest).length :=
      Nat.lt_succ_of_le (skipStatement_cons_suffix 0 0 hend).length_le
    clear_value left
    obtain ⟨skipped, heq, hskipped⟩ := skipStatement_skips 0 0 (token :: rest)
    rw [hskip] at heq
    obtain ⟨more, rfl, rfl⟩ := exists_more heq hlt
    exact .segment hskipped (.failed hfirst hrun hskip) ih

theorem Piece.tokens_append (segment rest : List Token) (outcome : PieceOutcome) :
    (Piece.mk (segment ++ rest) rest outcome).tokens = segment := by
  simp [Piece.tokens]

namespace Cut

variable {tokens : List Token} {pieces : List Piece}

theorem flatMap_tokens (h : Cut stmt final tokens pieces) :
    pieces.flatMap Piece.tokens = beforeEnd tokens := by
  induction h with
  | @ended rest hend =>
    cases rest with
    | nil => rfl
    | cons token rest => exact (beforeEnd_of_endOfInput hend rest).symm
  | @segment segment rest outcome pieces hsegment h tail ih =>
    rw [List.flatMap_cons, Piece.tokens_append, ih, beforeEnd_append hsegment]

theorem start_suffix (h : Cut stmt final tokens pieces) {piece : Piece} (hpiece : piece ∈ pieces) :
    piece.start <:+ tokens := by
  induction h with
  | ended _ => cases hpiece
  | segment _ _ _ ih =>
    rcases List.mem_cons.1 hpiece with rfl | hpiece
    · exact List.suffix_refl _
    · exact (ih hpiece).trans (List.suffix_append _ _)

theorem pairwise_start (h : Cut stmt final tokens pieces) {total : Nat}
    (hle : tokens.length ≤ total) :
    (pieces.map fun piece => total - piece.start.length).Pairwise (· < ·) := by
  induction h with
  | ended _ => exact .nil
  | @segment segment rest outcome pieces hsegment h tail ih =>
    obtain ⟨first, more, rfl⟩ := h.exists_cons
    simp only [List.cons_append, List.length_cons, List.length_append] at hle
    rw [List.map_cons, List.pairwise_cons]
    constructor
    · intro index hindex
      obtain ⟨piece, hpiece, rfl⟩ := List.mem_map.1 hindex
      have hstart := (tail.start_suffix hpiece).length_le
      simp only [List.cons_append, List.length_cons, List.length_append]
      omega
    · apply ih
      omega

theorem length_results_le (h : Cut stmt final tokens pieces) :
    (Piece.results pieces).1.length + (Piece.results pieces).2.length ≤
      (beforeEnd tokens).countP fun token => token.kind ≠ .terminator := by
  have hcount : ∀ {first : Token} (more : List Token), first.kind.startsPiece →
      0 < (first :: more).countP fun token => token.kind ≠ .terminator := by
    intro first more hfirst
    simp only [Kind.startsPiece, Bool.and_eq_true, decide_eq_true_eq] at hfirst
    exact List.countP_pos_iff.2 ⟨first, List.mem_cons_self, decide_eq_true hfirst.2⟩
  induction h with
  | ended _ => exact Nat.zero_le _
  | @segment segment rest outcome pieces hsegment h tail ih =>
    simp only [Piece.results] at ih ⊢
    rw [beforeEnd_append hsegment, List.countP_append]
    cases h with
    | blank hstop =>
      simp only [List.filterMap_cons, Piece.stmt?, Piece.error?]
      omega
    | @parsed first more _ _ hfirst hrun =>
      have hpos := hcount more hfirst
      simp only [List.filterMap_cons, Piece.stmt?, Piece.error?, List.length_cons]
      omega
    | @failed first more _ _ _ hfirst hrun hskip =>
      have hpos := hcount more hfirst
      simp only [List.filterMap_cons, Piece.stmt?, Piece.error?, List.length_cons]
      omega

theorem start_eq (h : Cut stmt final tokens pieces) {piece : Piece} (hpiece : piece ∈ pieces) :
    piece.start = piece.tokens ++ piece.rest := by
  induction h with
  | ended _ => cases hpiece
  | segment _ _ _ ih =>
    rcases List.mem_cons.1 hpiece with rfl | hpiece
    · rw [Piece.tokens_append]
    · exact ih hpiece

theorem exists_segment (h : Cut stmt final tokens pieces) {piece : Piece} (hpiece : piece ∈ pieces) :
    Segment stmt final piece.rest piece.tokens piece.outcome := by
  induction h with
  | ended _ => cases hpiece
  | segment _ h _ ih =>
    rcases List.mem_cons.1 hpiece with rfl | hpiece
    · rw [Piece.tokens_append]
      exact h
    · exact ih hpiece

end Cut

theorem Segment.parse_alone {rest segment : List Token} {value : Stmt} {started : List Kind}
    (h : Segment (statement .standard (.ofLevels .standard nestingLimit)) final rest segment
      (.parsed value started)) (file : String) :
    Piece.results (parse segment file).pieces = ([value], []) := by
  cases h with
  | @parsed first more _ _ hfirst hrun =>
    obtain ⟨phrase, heq, levels, hlevels, hderives⟩ :=
      statement_yields (Layer.ofLevels_sound nestingLimit) hrun
    obtain rfl := List.append_cancel_right heq
    have halone := hderives.retarget Symbol.statement_admits_endOfInput
    have hbody : Derives .body (max levels 0) (first :: more ++ []) .endOfInput [value] :=
      .statements halone .emptyBody
    have hend : (frontToken (endPosition (first :: more) file) []).kind = .endOfInput := rfl
    have hresults := results_of_derives hbody (Nat.max_le.2 ⟨hlevels, Nat.zero_le _⟩) hend
    rw [List.append_nil, List.append_nil] at hresults
    exact hresults

section program

variable {tokens : List Token} {file : String}

theorem parse_cut (tokens : List Token) (file : String) :
    Cut (statement .standard (.ofLevels .standard nestingLimit)) (endPosition tokens file) tokens
      (parse tokens file).pieces :=
  pieces_cut (statement_readsStatement .standard (Layer.ofLevels_reads .standard nestingLimit) 0 0) _

theorem exists_derives_of_mem_statements {stmt : Stmt}
    (h : stmt ∈ (parse tokens file).program.statements) :
    ∃ phrase next, DerivesWithin .statement nestingLimit phrase next stmt := by
  obtain ⟨piece, hpiece, hstmt⟩ := List.mem_filterMap.1 h
  have hsegment := (parse_cut tokens file).exists_segment hpiece
  cases houtcome : piece.outcome with
  | blank | failed _ _ => simp [Piece.stmt?, houtcome] at hstmt
  | parsed value started =>
    obtain rfl : value = stmt := by simpa [Piece.stmt?, houtcome] using hstmt
    rw [houtcome] at hsegment
    generalize piece.tokens = segment at hsegment
    cases hsegment with
    | parsed _ hrun =>
      obtain ⟨phrase, -, hderives⟩ := statement_yields (Layer.ofLevels_sound nestingLimit) hrun
      exact ⟨phrase, _, hderives⟩

theorem exists_fail_of_mem_errors {error : SyntaxError} (h : error ∈ (parse tokens file).errors) :
    ∃ start rest started, start <:+ tokens ∧
      (statement .standard (.ofLevels .standard nestingLimit)).run (endPosition tokens file) start =
        .fail error rest started := by
  obtain ⟨piece, hpiece, herror⟩ := List.mem_filterMap.1 h
  have hsegment := (parse_cut tokens file).exists_segment hpiece
  have hstart := (parse_cut tokens file).start_suffix hpiece
  rw [(parse_cut tokens file).start_eq hpiece] at hstart
  cases houtcome : piece.outcome with
  | blank | parsed _ _ => simp [Piece.error?, houtcome] at herror
  | failed error' started =>
    obtain rfl : error' = error := by simpa [Piece.error?, houtcome] using herror
    rw [houtcome] at hsegment
    generalize piece.tokens = segment at hsegment hstart
    cases hsegment with
    | failed _ hrun _ => exact ⟨_, _, _, hstart, hrun⟩

end program

/-- The tokens up to the first end marker fall into segments that start one behind the other, the
statements and the errors are those of the segments, and a parsed segment alone is parsed to its
one statement. -/
theorem parse_segments (tokens : List Token) (file : String) :
    let parsed := parse tokens file
    Cut (statement .standard (.ofLevels .standard nestingLimit)) (endPosition tokens file) tokens
        parsed.pieces ∧
      parsed.pieces.flatMap Piece.tokens = beforeEnd tokens ∧
      (parsed.pieces.map fun piece => tokens.length - piece.start.length).Pairwise (· < ·) ∧
      parsed.program.statements = parsed.pieces.filterMap Piece.stmt? ∧
      parsed.errors = parsed.pieces.filterMap Piece.error? ∧
      parsed.program.statements.length + parsed.errors.length ≤
        (beforeEnd tokens).countP (fun token => token.kind ≠ .terminator) ∧
      ∀ piece ∈ parsed.pieces, piece.tokens ≠ [] ∧
        ∀ stmt, piece.stmt? = some stmt → ∀ file,
          (parse piece.tokens file).program.statements = [stmt] ∧
            (parse piece.tokens file).errors = [] := by
  intro parsed
  have hreads := statement_readsStatement .standard (Layer.ofLevels_reads .standard nestingLimit) 0 0
  have hcut := @pieces_cut _ (endPosition tokens file) hreads tokens
  refine ⟨hcut, hcut.flatMap_tokens, hcut.pairwise_start (Nat.le_refl _), rfl, rfl,
    hcut.length_results_le, ?_⟩
  intro piece hpiece
  have hsegment := hcut.exists_segment hpiece
  constructor
  · obtain ⟨first, more, heq⟩ := hsegment.exists_cons
    rw [heq]
    exact List.cons_ne_nil _ _
  · intro stmt hstmt file
    cases houtcome : piece.outcome with
    | parsed value started =>
      rw [houtcome] at hsegment
      obtain rfl : value = stmt := by simpa [Piece.stmt?, houtcome] using hstmt
      exact Prod.mk.inj (hsegment.parse_alone file)
    | blank => simp [Piece.stmt?, houtcome] at hstmt
    | failed _ _ => simp [Piece.stmt?, houtcome] at hstmt

end ShellFrontend
