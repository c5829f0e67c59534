import ShellFrontend.Grammar.Statement
import ShellFrontend.Proofs.Reads

/-! # Running out of levels

On a phrase of the grammar a parser can fail for one reason only: too few levels are left to be
opened. The lemmas tell how the conditions on the levels add up along the combinators.
-/

set_option autoImplicit false

namespace ShellFrontend.Parser

variable {α β : Type}

/-- The parser gives a value and leaves the rest if there are enough levels, and else runs out of
them. -/
structure Decides (parser : Parser α) (final : Position) (tokens : List Token) (enough : Prop)
    (value : α) (rest : List Token) : Prop where
  ok : enough → ∃ started, parser.run final tokens = .ok value rest started
  fail : ¬ enough → ∃ position left started,
    parser.run final tokens = .fail ⟨.tooDeep nestingLimit, position⟩ left started

namespace Decides

variable {parser : Parser α} {next : α → Parser β} {final : Position}
  {tokens middle rest : List Token} {enough enough' : Prop} {value : α} {result : β}
  {started : List Kind}

theorem of_ok (h : parser.run final tokens = .ok value rest started) :
    parser.Decides final tokens True value rest where
  ok _ := ⟨started, h⟩
  fail hnot := absurd trivial hnot

theorem of_tooDeep {position : Position}
    (h : parser.run final tokens = .fail ⟨.tooDeep nestingLimit, position⟩ rest started)
    (hnot : ¬ enough) (left : List Token) : parser.Decides final tokens enough value left where
  ok henough := absurd henough hnot
  fail _ := ⟨position, rest, started, h⟩

theorem congr (h : parser.Decides final tokens enough value rest) (hiff : enough ↔ enough') :
    parser.Decides final tokens enough' value rest where
  ok henough := h.ok (hiff.2 henough)
  fail hnot := h.fail fun henough => hnot (hiff.1 henough)

theorem of_run_eq {other : Parser α} {tokens' : List Token}
    (h : other.Decides final tokens' enough value rest)
    (hrun : parser.run final tokens = other.run final tokens') :
    parser.Decides final tokens enough value rest where
  ok := by
    rw [hrun]
    exact h.ok
  fail := by
    rw [hrun]
    exact h.fail

theorem bind (h : parser.Decides final tokens enough value middle)
    (hnext : (next value).Decides final middle enough' result rest) :
    (parser >>= next).Decides final tokens (enough ∧ enough') result rest where
  ok := by
    rintro ⟨henough, henough'⟩
    obtain ⟨started, hrun⟩ := h.ok henough
    obtain ⟨started', hrun'⟩ := hnext.ok henough'
    refine ⟨started ++ started', ?_⟩
    rw [run_bind_of_ok hrun, hrun']
    rfl
  fail := by
    intro hnot
    by_cases henough : enough
    · obtain ⟨started, hrun⟩ := h.ok henough
      obtain ⟨position, left, started', hrun'⟩ := hnext.fail fun henough' => hnot ⟨henough, henough'⟩
      refine ⟨position, left, started ++ started', ?_⟩
      rw [run_bind_of_ok hrun, hrun']
      rfl
    · obtain ⟨position, left, started, hrun⟩ := h.fail henough
      exact ⟨position, left, started, run_bind_of_fail hrun⟩

/-- A first parser that needs no levels leaves the condition to the second. -/
theorem after (h : parser.run final tokens = .ok value middle started)
    (hnext : (next value).Decides final middle enough result rest) :
    (parser >>= next).Decides final tokens enough result rest :=
  ((of_ok h).bind hnext).congr (iff_of_eq (true_and _))

theorem bind_pure (h : parser.Decides final tokens enough value rest) (f : α → β) :
    (parser >>= fun value => pure (f value)).Decides final tokens enough (f value) rest :=
  (h.bind (of_ok (run_pure (f value) final rest))).congr (iff_of_eq (and_true _))

theorem starting {parser : Advancing α} (kind : Kind)
    (h : parser.Decides final tokens enough value rest) :
    (Advancing.starting kind parser).Decides final tokens enough value rest where
  ok henough := by
    obtain ⟨started, hrun⟩ := h.ok henough
    exact ⟨kind :: started, Advancing.run_starting_eq_ok_iff.2 ⟨started, hrun, rfl⟩⟩
  fail hnot := by
    obtain ⟨position, left, started, hrun⟩ := h.fail hnot
    exact ⟨position, left, kind :: started, Advancing.run_starting_eq_fail_iff.2 ⟨started, hrun, rfl⟩⟩

section many

variable {turn : Kind → Turn α} {values : List α}

theorem many_stop {last : Parser Unit} (h : turn (frontToken final tokens).kind = .stop last)
    (hlast : last.run final tokens = .ok () rest started) :
    (Parser.many turn).Decides final tokens True [] rest := by
  have hrun : runMany turn final tokens = .ok [] rest started := by
    rw [runMany_of_stop h, hlast]
    rfl
  exact of_ok hrun

theorem many_more {item : Advancing α} (h : turn (frontToken final tokens).kind = .more item)
    (hitem : item.Decides final tokens enough value middle)
    (htail : (Parser.many turn).Decides final middle enough' values rest) :
    (Parser.many turn).Decides final tokens (enough ∧ enough') (value :: values) rest where
  ok := by
    rintro ⟨henough, henough'⟩
    obtain ⟨started, hrun⟩ := hitem.ok henough
    obtain ⟨started', hrun'⟩ := htail.ok henough'
    have hmany : runMany turn final middle = .ok values rest started' := hrun'
    refine ⟨started ++ started', ?_⟩
    change runMany turn final tokens = _
    rw [runMany_of_ok h hrun, hmany]
    rfl
  fail := by
    intro hnot
    by_cases henough : enough
    · obtain ⟨started, hrun⟩ := hitem.ok henough
      obtain ⟨position, left, started', hrun'⟩ := htail.fail fun henough' => hnot ⟨henough, henough'⟩
      have hmany : runMany turn final middle = .fail ⟨.tooDeep nestingLimit, position⟩ left started' :=
        hrun'
      refine ⟨position, left, started ++ started', ?_⟩
      change runMany turn final tokens = _
      rw [runMany_of_ok h hrun, hmany]
      rfl
    · obtain ⟨position, left, started, hrun⟩ := hitem.fail henough
      exact ⟨position, left, started, runMany_of_fail h hrun⟩

end many

end Decides

end ShellFrontend.Parser

namespace ShellFrontend

open ShellFrontend.Parser (Decides)

theorem Advancing.run_token_of_kind {kind : Kind} {token : Token} (h : token.kind = kind)
    (final : Position) (rest : List Token) :
    (Advancing.token kind).run final (token :: rest) = .ok token rest [] :=
  run_accept_of_some (if_pos h) final rest

namespace Layer

variable {final : Position} {tokens rest : List Token} {levels : Nat}

theorem expr_decides {floor : Power} {value : Expr}
    (h : ∀ free, (expression .standard (.ofLevels .standard free) floor).Decides final tokens
      (levels ≤ free) value rest) (free : Nat) :
    ((ofLevels .standard free).expr floor).Decides final tokens (levels + 1 ≤ free) value rest := by
  cases free with
  | zero => exact Decides.of_tooDeep rfl (Nat.not_succ_le_zero _) _
  | succ free => exact (h free).congr Nat.succ_le_succ_iff.symm

theorem block_decides {body : List Stmt}
    (h : ∀ free, (bracedBlock .standard (.ofLevels .standard free)).Decides final tokens
      (levels ≤ free) body rest) (free : Nat) :
    (ofLevels .standard free).block.Decides final tokens (levels + 1 ≤ free) body rest := by
  cases free with
  | zero => exact Decides.of_tooDeep rfl (Nat.not_succ_le_zero _) _
  | succ free => exact (h free).congr Nat.succ_le_succ_iff.symm

end Layer

end ShellFrontend
