import ShellFrontend.Parser.Many
import ShellFrontend.Proofs.Passage

/-! # What parsers read

A parser of the grammar reads a passage, and nothing behind it decides its reply but the
token at the front of what is left and whether that is a line break before an `else`.
Both facts are proved together, combinator by combinator.
-/

set_option autoImplicit false

namespace ShellFrontend

theorem elseOnNextLine_cons (final : Position) (token : Token) (rest : List Token) :
    elseOnNextLine (token :: rest) =
      (token.isLineBreak && (frontToken final rest).kind = .elseWord) := by
  cases rest with
  | nil => simp [elseOnNextLine]
  | cons second rest => rfl

/-- Tokens that a parser which stops in front of others would stop in front of as well: the first
is the same, and an `else` stands on the next line only if one did before. -/
structure SameFront (final final' : Position) (tokens tokens' : List Token) : Prop where
  front : frontToken final tokens = frontToken final' tokens'
  elseOnNextLine : elseOnNextLine tokens' → elseOnNextLine tokens

namespace SameFront

variable {final final' : Position} {tokens tokens' : List Token}

theorem cons (token : Token) (h : SameFront final final' tokens tokens') :
    SameFront final final' (token :: tokens) (token :: tokens') where
  front := rfl
  elseOnNextLine := by
    rw [elseOnNextLine_cons final', elseOnNextLine_cons final, h.front]
    exact id

theorem not_elseOnNextLine (h : SameFront final final' tokens tokens')
    (hnext : ShellFrontend.elseOnNextLine tokens = false) :
    ShellFrontend.elseOnNextLine tokens' = false := by
  rw [← Bool.not_eq_true] at hnext ⊢
  exact mt h.elseOnNextLine hnext

theorem append (read : List Token) (h : SameFront final final' tokens tokens') :
    SameFront final final' (read ++ tokens) (read ++ tokens') := by
  induction read with
  | nil => exact h
  | cons token read ih => exact ih.cons token

end SameFront

theorem Advancing.run_skip_of_kind {kind : Kind} {token : Token} (h : token.kind = kind)
    (final : Position) (rest : List Token) :
    (skip kind).run final (token :: rest) = .ok () rest [] := by
  have htoken : (Advancing.token kind).run final (token :: rest) = .ok token rest [] :=
    run_accept_of_some (if_pos h) final rest
  rw [skip, Parser.run_bind_of_ok htoken]
  rfl

section starting

variable {α : Type} {parser : Advancing α} {kind : Kind} {final : Position}
  {tokens rest : List Token} {started : List Kind}

theorem Advancing.run_starting_eq_ok_iff {value : α} :
    (starting kind parser).run final tokens = .ok value rest started ↔
      ∃ later, parser.run final tokens = .ok value rest later ∧ started = kind :: later := by
  cases h : parser.run final tokens <;>
    simp only [starting, h, Reply.after, List.singleton_append, Reply.ok.injEq, reduceCtorEq,
      false_and, exists_false]
  grind

theorem Advancing.run_starting_eq_fail_iff {error : SyntaxError} :
    (starting kind parser).run final tokens = .fail error rest started ↔
      ∃ later, parser.run final tokens = .fail error rest later ∧ started = kind :: later := by
  cases h : parser.run final tokens <;>
    simp only [starting, h, Reply.after, List.singleton_append, Reply.fail.injEq, reduceCtorEq,
      false_and, exists_false]
  grind

end starting

theorem Parser.run_skipLineBreakBefore (final : Position) (tokens : List Token) :
    (skipLineBreakBefore .elseWord).run final tokens =
      .ok () (if elseOnNextLine tokens then tokens.tail else tokens) [] := by
  rcases tokens with - | ⟨first, - | ⟨second, rest⟩⟩
  · rfl
  · rfl
  · have hnext : elseOnNextLine (first :: second :: rest) =
        (first.isLineBreak && decide (second.kind = .elseWord)) := rfl
    rw [hnext, skipLineBreakBefore]
    dsimp only
    split <;> rfl

namespace Parser

variable {α β : Type}

/-- Where a parser fails it has read a passage, and its error stands at the front of what is
left. The reply stays the same when what is left is replaced behind its front. -/
def FailsWithin (parser : Parser α) (braces parens : Nat) : Prop :=
  ∀ ⦃final tokens error rest started⦄, parser.run final tokens = .fail error rest started →
    error.position = (frontToken final rest).span.start ∧
    ∃ read braces₁ parens₁, tokens = read ++ rest ∧ Passage braces parens read braces₁ parens₁ ∧
      ∀ {final' rest'}, SameFront final final' rest rest' →
        parser.run final' (read ++ rest') = .fail error rest' started

/-- From some open brackets a parser reads on to others, and only the front of what it leaves
matters for its reply. -/
structure Reads (parser : Parser α) (braces parens braces' parens' : Nat) : Prop where
  ok : ∀ {final tokens value rest started}, parser.run final tokens = .ok value rest started →
    ∃ read, tokens = read ++ rest ∧ Passage braces parens read braces' parens' ∧
      ∀ {final' rest'}, SameFront final final' rest rest' →
        parser.run final' (read ++ rest') = .ok value rest' started
  fail : parser.FailsWithin braces parens

variable {parser : Parser α} {next : α → Parser β}
  {braces parens braces₁ parens₁ braces₂ parens₂ : Nat}

theorem FailsWithin.bind (hparser : parser.Reads braces parens braces₁ parens₁)
    (hnext : ∀ value, (next value).FailsWithin braces₁ parens₁) :
    (parser >>= next).FailsWithin braces parens := by
  intro final tokens error rest started h
  cases hfirst : parser.run final tokens with
  | fail error₁ rest₁ started₁ =>
    rw [run_bind_of_fail hfirst] at h
    cases h
    obtain ⟨hposition, read, _, _, rfl, hread, hsame⟩ := hparser.fail hfirst
    exact ⟨hposition, read, _, _, rfl, hread, fun hfront => run_bind_of_fail (hsame hfront)⟩
  | ok value middle earlier =>
    rw [run_bind_of_ok hfirst] at h
    obtain ⟨read, rfl, hread, hsame⟩ := hparser.ok hfirst
    cases hsecond : (next value).run final middle with
    | ok value₁ rest₁ started₁ =>
      rw [hsecond] at h
      cases h
    | fail error₁ rest₁ later =>
      rw [hsecond] at h
      cases h
      obtain ⟨hposition, more, _, _, rfl, hmore, hsame'⟩ := hnext value hsecond
      refine ⟨hposition, read ++ more, _, _, (List.append_assoc ..).symm, hread.append hmore,
        fun hfront => ?_⟩
      rw [List.append_assoc, run_bind_of_ok (hsame (hfront.append more)), hsame' hfront]
      rfl

/-- If nothing is left of what a parser does once it has succeeded, it fails where that does. -/
theorem FailsWithin.bind_pure (hparser : parser.FailsWithin braces parens) (f : α → β) :
    (parser >>= fun value => pure (f value)).FailsWithin braces parens := by
  intro final tokens error rest started h
  cases hfirst : parser.run final tokens with
  | ok value middle earlier =>
    rw [run_bind_of_ok hfirst] at h
    cases h
  | fail error₁ rest₁ started₁ =>
    rw [run_bind_of_fail hfirst] at h
    cases h
    obtain ⟨hposition, read, _, _, rfl, hread, hsame⟩ := hparser hfirst
    exact ⟨hposition, read, _, _, rfl, hread, fun hfront => run_bind_of_fail (hsame hfront)⟩

theorem FailsWithin.accept {meaning : Token → Option α} {cause : Token → Cause}
    (hend : ∀ {position}, meaning (.endMarker position) = none) :
    (Advancing.accept meaning cause).FailsWithin braces parens := by
  intro final tokens error rest started hrun
  have hfront : meaning (frontToken final tokens) = none ∧ rest = tokens ∧ started = [] ∧
      error = ⟨cause (frontToken final tokens), (frontToken final tokens).span.start⟩ := by
    cases tokens with
    | nil =>
      cases hrun
      exact ⟨hend, rfl, rfl, rfl⟩
    | cons token tail =>
      cases hmeaning : meaning token with
      | none =>
        rw [Advancing.run_accept_of_none hmeaning] at hrun
        cases hrun
        exact ⟨hmeaning, rfl, rfl, rfl⟩
      | some value =>
        rw [Advancing.run_accept_of_some hmeaning] at hrun
        cases hrun
  obtain ⟨hmeaning, rfl, rfl, rfl⟩ := hfront
  refine ⟨rfl, [], _, _, rfl, .nil _ _, fun {final' rest'} hsame => ?_⟩
  rw [hsame.front] at hmeaning ⊢
  cases rest' with
  | nil => rfl
  | cons token tail => exact Advancing.run_accept_of_none hmeaning _ _

theorem FailsWithin.skip {kind : Kind} (h : kind ≠ .endOfInput) :
    (Advancing.skip kind).FailsWithin braces parens :=
  (FailsWithin.accept (if_neg h.symm)).bind_pure _

theorem FailsWithin.select {choice : Kind → Parser α}
    (h : ∀ kind, (choice kind).FailsWithin braces parens) :
    (Parser.select choice).FailsWithin braces parens := by
  intro final tokens error rest started hrun
  rw [run_select] at hrun
  obtain ⟨hposition, read, _, _, rfl, hread, hsame⟩ := h _ hrun
  refine ⟨hposition, read, _, _, rfl, hread, fun hfront => ?_⟩
  rw [run_select, ← (hfront.append read).front]
  exact hsame hfront

theorem FailsWithin.starting {parser : Advancing α} (kind : Kind)
    (h : parser.FailsWithin braces parens) :
    (Advancing.starting kind parser).FailsWithin braces parens := by
  intro final tokens error rest started hrun
  obtain ⟨started, hparser, rfl⟩ := Advancing.run_starting_eq_fail_iff.1 hrun
  obtain ⟨hposition, read, _, _, rfl, hread, hsame⟩ := h hparser
  exact ⟨hposition, read, _, _, rfl, hread, fun hfront =>
    Advancing.run_starting_eq_fail_iff.2 ⟨started, hsame hfront, rfl⟩⟩

namespace Reads

theorem pure (value : α) (braces parens : Nat) :
    (pure value : Parser α).Reads braces parens braces parens where
  ok h := by
    cases h
    exact ⟨[], rfl, .nil _ _, fun _ => rfl⟩
  fail := by
    intro _ _ _ _ _ h
    cases h

theorem failing (cause : Token → Cause) (braces parens braces₁ parens₁ : Nat) :
    (Parser.fail cause : Parser α).Reads braces parens braces₁ parens₁ where
  ok h := by cases h
  fail := by
    intro _ _ _ _ _ h
    cases h
    refine ⟨rfl, [], _, _, rfl, .nil _ _, fun hfront => ?_⟩
    rw [List.nil_append, run_fail, hfront.front]

theorem bind (hparser : parser.Reads braces parens braces₁ parens₁)
    (hnext : ∀ value, (next value).Reads braces₁ parens₁ braces₂ parens₂) :
    (parser >>= next).Reads braces parens braces₂ parens₂ where
  ok {final tokens result rest started} h := by
    obtain ⟨value, middle, earlier, later, hfirst, hsecond, rfl⟩ := run_bind_eq_ok_iff.1 h
    obtain ⟨read, rfl, hread, hsame⟩ := hparser.ok hfirst
    obtain ⟨more, rfl, hmore, hsame'⟩ := (hnext value).ok hsecond
    refine ⟨read ++ more, (List.append_assoc ..).symm, hread.append hmore, fun hfront => ?_⟩
    rw [List.append_assoc, run_bind_of_ok (hsame (hfront.append more)), hsame' hfront]
    rfl
  fail := FailsWithin.bind hparser fun value => (hnext value).fail

theorem select {choice : Kind → Parser α}
    (h : ∀ kind, (choice kind).Reads braces parens braces₁ parens₁) :
    (Parser.select choice).Reads braces parens braces₁ parens₁ where
  ok {final tokens value rest started} hrun := by
    rw [run_select] at hrun
    obtain ⟨read, rfl, hread, hsame⟩ := (h _).ok hrun
    refine ⟨read, rfl, hread, fun hfront => ?_⟩
    rw [run_select, ← (hfront.append read).front]
    exact hsame hfront
  fail := FailsWithin.select fun kind => (h kind).fail

theorem selecting {choice : Kind → Advancing α}
    (h : ∀ kind, (choice kind).toParser.Reads braces parens braces₁ parens₁) :
    (Advancing.select choice).Reads braces parens braces₁ parens₁ :=
  select h

/-- A token that may be accepted is a passage of its own; the end marker never is. -/
theorem accept {meaning : Token → Option α} {cause : Token → Cause}
    (h : ∀ {token value}, meaning token = some value →
      Passage braces parens [token] braces₁ parens₁) :
    (Advancing.accept meaning cause).Reads braces parens braces₁ parens₁ where
  ok {final tokens value rest started} hrun := by
    cases tokens with
    | nil => cases hrun
    | cons token tail =>
      cases hmeaning : meaning token with
      | none =>
        rw [Advancing.run_accept_of_none hmeaning] at hrun
        cases hrun
      | some value' =>
        rw [Advancing.run_accept_of_some hmeaning] at hrun
        cases hrun
        exact ⟨[token], rfl, h hmeaning, fun _ => Advancing.run_accept_of_some hmeaning _ _⟩
  fail := FailsWithin.accept fun {position} => by
    cases hmeaning : meaning (.endMarker position) with
    | none => rfl
    | some value => exact absurd (h hmeaning) Passage.not_endMarker

theorem token {kind : Kind} (h : ∀ {token : Token}, token.kind = kind →
    Passage braces parens [token] braces₁ parens₁) :
    (Advancing.token kind).Reads braces parens braces₁ parens₁ := by
  refine accept fun {token value} hvalue => h ?_
  split at hvalue
  · assumption
  · cases hvalue

theorem skip {kind : Kind} (h : ∀ {token : Token}, token.kind = kind →
    Passage braces parens [token] braces₁ parens₁) :
    (Advancing.skip kind).Reads braces parens braces₁ parens₁ :=
  (token h).bind fun _ => pure () _ _

section many

variable {turn : Kind → Turn α}
  (hmore : ∀ {kind item}, turn kind = .more item → item.toParser.Reads braces parens braces parens)
  (hstop : ∀ {kind last}, turn kind = .stop last → last.Reads braces parens braces₁ parens₁)

include hmore hstop

private theorem runMany_ok {final : Position} {tokens rest : List Token} {values : List α}
    {started : List Kind} (h : runMany turn final tokens = .ok values rest started) :
    ∃ read, tokens = read ++ rest ∧ Passage braces parens read braces₁ parens₁ ∧
      ∀ {final' rest'}, SameFront final final' rest rest' →
        runMany turn final' (read ++ rest') = .ok values rest' started := by
  fun_induction runMany turn final tokens generalizing values started with
  | case1 tokens last hturn =>
    cases hlast : last.run final tokens with
    | fail error rest' started' =>
      rw [hlast] at h
      cases h
    | ok value rest' started' =>
      rw [hlast] at h
      cases h
      obtain ⟨read, rfl, hread, hsame⟩ := (hstop hturn).ok hlast
      refine ⟨read, rfl, hread, fun hfront => ?_⟩
      rw [(hfront.append read).front] at hturn
      rw [runMany_of_stop hturn, hsame hfront]
      rfl
  | case2 tokens item hturn value rest₁ started₁ hitem ih =>
    cases hmany : runMany turn final rest₁ with
    | fail error rest' started' =>
      rw [hmany] at h
      cases h
    | ok values' rest' started' =>
      rw [hmany] at h
      cases h
      obtain ⟨read, rfl, hread, hsame⟩ := (hmore hturn).ok hitem
      obtain ⟨more, rfl, hmore', hsame'⟩ := ih hmany
      refine ⟨read ++ more, (List.append_assoc ..).symm, hread.append hmore', fun hfront => ?_⟩
      rw [← List.append_assoc, (hfront.append (read ++ more)).front, List.append_assoc] at hturn
      rw [List.append_assoc, runMany_of_ok hturn (hsame (hfront.append more)), hsame' hfront]
      rfl
  | case3 tokens item hturn error rest₁ started₁ hitem => cases h

private theorem runMany_fail {final : Position} {tokens rest : List Token} {error : SyntaxError}
    {started : List Kind} (h : runMany turn final tokens = .fail error rest started) :
    error.position = (frontToken final rest).span.start ∧
    ∃ read braces₂ parens₂, tokens = read ++ rest ∧ Passage braces parens read braces₂ parens₂ ∧
      ∀ {final' rest'}, SameFront final final' rest rest' →
        runMany turn final' (read ++ rest') = .fail error rest' started := by
  fun_induction runMany turn final tokens generalizing started with
  | case1 tokens last hturn =>
    cases hlast : last.run final tokens with
    | ok value rest' started' =>
      rw [hlast] at h
      cases h
    | fail error' rest' started' =>
      rw [hlast] at h
      cases h
      obtain ⟨hposition, read, _, _, rfl, hread, hsame⟩ := (hstop hturn).fail hlast
      refine ⟨hposition, read, _, _, rfl, hread, fun hfront => ?_⟩
      rw [(hfront.append read).front] at hturn
      rw [runMany_of_stop hturn, hsame hfront]
      rfl
  | case2 tokens item hturn value rest₁ started₁ hitem ih =>
    cases hmany : runMany turn final rest₁ with
    | ok values' rest' started' =>
      rw [hmany] at h
      cases h
    | fail error' rest' started' =>
      rw [hmany] at h
      cases h
      obtain ⟨read, rfl, hread, hsame⟩ := (hmore hturn).ok hitem
      obtain ⟨hposition, more, _, _, rfl, hmore', hsame'⟩ := ih hmany
      refine ⟨hposition, read ++ more, _, _, (List.append_assoc ..).symm, hread.append hmore',
        fun hfront => ?_⟩
      rw [← List.append_assoc, (hfront.append (read ++ more)).front, List.append_assoc] at hturn
      rw [List.append_assoc, runMany_of_ok hturn (hsame (hfront.append more)), hsame' hfront]
      rfl
  | case3 tokens item hturn error' rest₁ started₁ hitem =>
    cases h
    obtain ⟨hposition, read, _, _, rfl, hread, hsame⟩ := (hmore hturn).fail hitem
    refine ⟨hposition, read, _, _, rfl, hread, fun hfront => ?_⟩
    rw [(hfront.append read).front] at hturn
    exact runMany_of_fail hturn (hsame hfront)

/-- Items that open as many brackets as they close, and a last parser behind them. -/
theorem many : (Parser.many turn).Reads braces parens braces₁ parens₁ where
  ok h := runMany_ok hmore hstop h
  fail _ _ _ _ _ h := runMany_fail hmore hstop h

end many

end Reads

end Parser

end ShellFrontend
