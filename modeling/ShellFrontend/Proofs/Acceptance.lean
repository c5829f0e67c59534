import ShellFrontend.Proofs.Completeness
import ShellFrontend.Proofs.Pieces
import ShellFrontend.Proofs.Soundness

/-! # The programs that are accepted

A program has no errors just if its tokens up to the end marker derive from the grammar with no
more levels open at once than the limit allows, and its tree is the one of the derivation.
-/

set_option autoImplicit false

namespace ShellFrontend

/-- The tokens in front of the first end marker. -/
def beforeEnd (tokens : List Token) : List Token :=
  tokens.takeWhile fun token => token.kind ≠ .endOfInput

theorem beforeEnd_of_endOfInput {token : Token} (h : token.kind = .endOfInput) (rest : List Token) :
    beforeEnd (token :: rest) = [] :=
  List.takeWhile_cons_of_neg (by simp [h])

theorem beforeEnd_append {phrase : List Token} (h : ∀ token ∈ phrase, token.kind ≠ .endOfInput)
    (rest : List Token) : beforeEnd (phrase ++ rest) = phrase ++ beforeEnd rest :=
  List.takeWhile_append_of_pos fun token htoken => decide_eq_true (h token htoken)

theorem headKind_beforeEnd (final : Position) (tokens : List Token) :
    headKind .endOfInput (beforeEnd tokens) = (frontToken final tokens).kind := by
  cases tokens with
  | nil => rfl
  | cons token rest =>
    by_cases hend : token.kind = .endOfInput
    · rw [beforeEnd_of_endOfInput hend, frontToken_cons, hend]
      rfl
    · have hcons := @beforeEnd_append [token] (by simpa using hend) rest
      rw [List.singleton_append] at hcons
      rw [hcons]
      rfl

theorem exists_beforeEnd (final : Position) (tokens : List Token) :
    ∃ rest, tokens = beforeEnd tokens ++ rest ∧ (frontToken final rest).kind = .endOfInput := by
  induction tokens with
  | nil => exact ⟨[], rfl, rfl⟩
  | cons token tokens ih =>
    by_cases hend : token.kind = .endOfInput
    · exact ⟨token :: tokens, by rw [beforeEnd_of_endOfInput hend]; rfl, hend⟩
    · obtain ⟨rest, heq, hrest⟩ := ih
      have hcons := @beforeEnd_append [token] (by simpa using hend) tokens
      refine ⟨rest, ?_, hrest⟩
      rw [List.singleton_append] at hcons
      rw [hcons, List.append_assoc, ← heq]
      rfl

section results

variable {free : Nat} {final : Position}

theorem derivesWithin_of_results {tokens : List Token}
    (h : (Piece.results (pieces (statement .standard (.ofLevels .standard free)) final tokens)).2 = []) :
    DerivesWithin .body free (beforeEnd tokens) .endOfInput
      (Piece.results (pieces (statement .standard (.ofLevels .standard free)) final tokens)).1 := by
  fun_induction pieces (statement .standard (.ofLevels .standard free)) final tokens with
  | case1 => exact ⟨0, Nat.zero_le _, .emptyBody⟩
  | case2 token rest hend =>
    rw [beforeEnd_of_endOfInput hend]
    exact ⟨0, Nat.zero_le _, .emptyBody⟩
  | case3 token rest hend hstop ih =>
    obtain ⟨levels, hlevels, hbody⟩ := ih h
    have hcons := @beforeEnd_append [token] (by simpa using hend) rest
    rw [List.singleton_append] at hcons
    rw [hcons]
    exact ⟨levels, hlevels, .emptyStatement hstop hbody⟩
  | case4 token rest hend hstop value left started hrun ih =>
    obtain ⟨levels, hlevels, hbody⟩ := ih h
    obtain ⟨phrase, hphrase, levels', hlevels', hstmt⟩ :=
      statement_yields (Layer.ofLevels_sound free) hrun
    obtain ⟨read, hread, hnone⟩ := (statement_readsStatement .standard
      (Layer.ofLevels_reads .standard free) 0 0).ok_read hrun
    obtain rfl : read = phrase := List.append_cancel_right (hread.symm.trans hphrase)
    rw [← headKind_beforeEnd] at hstmt
    rw [hread, beforeEnd_append hnone]
    exact ⟨max levels' levels, Nat.max_le.2 ⟨hlevels', hlevels⟩, .statements hstmt hbody⟩
  | case5 token rest hend hstop error failed started hrun left ih => cases h

private def Gives (free : Nat) (final : Position) :
    (symbol : Symbol) → Nat → List Token → Kind → symbol.Tree → Prop
  | .body, levels, phrase, next, tree => levels ≤ free → next = .endOfInput →
    ∀ rest, (frontToken final rest).kind = .endOfInput →
      Piece.results (pieces (statement .standard (.ofLevels .standard free)) final
        (phrase ++ rest)) = (tree, [])
  | _, _, _, _, _ => True

theorem results_of_derives {levels : Nat} {phrase : List Token} {stmts : List Stmt}
    (h : Derives .body levels phrase .endOfInput stmts) (hlevels : levels ≤ free) {rest : List Token}
    (hrest : (frontToken final rest).kind = .endOfInput) :
    Piece.results (pieces (statement .standard (.ofLevels .standard free)) final (phrase ++ rest)) =
      (stmts, []) := by
  have hall : ∀ {symbol phrase levels next tree}, Derives symbol levels phrase next tree →
      Gives free final symbol levels phrase next tree := by
    intro symbol phrase levels next tree h
    induction h with
    | emptyBody =>
      rintro - rfl rest hrest
      cases rest with
      | nil => exact congrArg Piece.results pieces_nil
      | cons token rest => exact congrArg Piece.results (pieces_of_endOfInput hrest)
    | emptyStatement hstop _ ih =>
      rintro hlevels hnext rest hrest
      rw [List.cons_append, results_of_terminator hstop]
      exact ih hlevels hnext rest hrest
    | @statements levels levels' phrase phrase' next stmt body hstmt tail _ ih =>
      rintro hlevels rfl rest hrest
      rw [Nat.max_le] at hlevels
      have hfront : (frontToken final (phrase' ++ rest)).kind = headKind .endOfInput phrase' := by
        rw [headKind_frontToken, hrest]
      obtain ⟨started, hrun⟩ := (hstmt.accepts final free (phrase' ++ rest) hfront
        (Block.headKind_ne_elseWord tail.starts (by decide))).ok hlevels.1
      obtain ⟨token, more, rfl, hkind⟩ := hstmt.starts
      have hstarts := Kind.startsPiece_of_startsStatement hkind
      have hbody : Piece.results (pieces (statement .standard (.ofLevels .standard free)) final
          (phrase' ++ rest)) = (body, []) := ih hlevels.2 rfl rest hrest
      have hall := results_of_ok hstarts hrun
      rw [hbody] at hall
      have hassoc : token :: more ++ phrase' ++ rest = token :: more ++ (phrase' ++ rest) :=
        List.append_assoc ..
      exact (congrArg (fun tokens => Piece.results (pieces _ final tokens)) hassoc).trans hall
    | _ => trivial
  exact hall h hlevels rfl rest hrest

end results

theorem beforeEnd_eq_self {tokens : List Token} (h : ∀ token ∈ tokens, token.kind ≠ .endOfInput) :
    beforeEnd tokens = tokens := by
  have happend : beforeEnd (tokens ++ []) = tokens ++ [] := beforeEnd_append h []
  rwa [List.append_nil] at happend

theorem derivesWithin_of_parse {tokens : List Token} {file : String}
    (hend : ∀ token ∈ tokens, token.kind ≠ .endOfInput) (h : (parse tokens file).errors = []) :
    DerivesWithin .body nestingLimit tokens .endOfInput (parse tokens file).program.statements := by
  have hwithin := derivesWithin_of_results h
  rwa [beforeEnd_eq_self hend] at hwithin

theorem parse_of_derivesWithin {tokens : List Token} {stmts : List Stmt}
    (h : DerivesWithin .body nestingLimit tokens .endOfInput stmts) (file : String) :
    (parse tokens file).program = ⟨stmts⟩ ∧ (parse tokens file).errors = [] := by
  obtain ⟨levels, hlevels, hbody⟩ := h
  have hresults := results_of_derives hbody hlevels
    (show (frontToken (endPosition tokens file) []).kind = .endOfInput from rfl)
  rw [List.append_nil] at hresults
  obtain ⟨hstmts, herrors⟩ := Prod.mk.inj hresults
  exact ⟨congrArg Program.mk hstmts, herrors⟩

/-- The parser accepts exactly the programs of the grammar, and builds exactly the tree of the
derivation. -/
theorem parse_accepts_iff (tokens : List Token) (file : String) :
    ((parse tokens file).errors = [] ↔
        ∃ stmts, DerivesWithin .body nestingLimit (beforeEnd tokens) .endOfInput stmts) ∧
      ∀ stmts, DerivesWithin .body nestingLimit (beforeEnd tokens) .endOfInput stmts →
        (parse tokens file).program.statements = stmts := by
  have hresults : ∀ stmts, DerivesWithin .body nestingLimit (beforeEnd tokens) .endOfInput stmts →
      (parse tokens file).program.statements = stmts ∧ (parse tokens file).errors = [] := by
    rintro stmts ⟨levels, hlevels, hbody⟩
    obtain ⟨rest, heq, hrest⟩ := exists_beforeEnd (endPosition tokens file) tokens
    have hpieces := results_of_derives hbody hlevels hrest
    rw [← heq] at hpieces
    exact Prod.mk.inj hpieces
  constructor
  · constructor
    · intro herrors
      exact ⟨_, derivesWithin_of_results herrors⟩
    · rintro ⟨stmts, h⟩
      exact (hresults stmts h).2
  · intro stmts h
    exact (hresults stmts h).1

end ShellFrontend
