import ShellFrontend.Parser.Reply

/-! # Parsers

A parser reads from the front of a list of tokens and leaves a suffix of it. Where the
list has run out it sees an end marker, whose position it is given.
-/

set_option autoImplicit false

namespace ShellFrontend

def frontToken (final : Position) : List Token → Token
  | [] => .endMarker final
  | token :: _ => token

@[simp] theorem frontToken_nil (final : Position) : frontToken final [] = .endMarker final := rfl

@[simp] theorem frontToken_cons (final : Position) (token : Token) (rest : List Token) :
    frontToken final (token :: rest) = token := rfl

/-- A function from the position of the end and the tokens that leaves a suffix of them. -/
structure Parser (α : Type) where
  run : Position → List Token → Reply α
  rest_suffix : ∀ final tokens, (run final tokens).rest <:+ tokens

namespace Parser

variable {α β : Type}

theorem suffix_of_run {parser : Parser α} {final : Position} {tokens : List Token}
    {reply : Reply α} (h : parser.run final tokens = reply) : reply.rest <:+ tokens :=
  h ▸ parser.rest_suffix final tokens

theorem ext_run {p q : Parser α} (h : ∀ final tokens, p.run final tokens = q.run final tokens) :
    p = q := by
  obtain ⟨run, _⟩ := p
  obtain ⟨run', _⟩ := q
  have hrun : run = run' := funext fun final => funext fun tokens => h final tokens
  subst hrun
  rfl

protected def pure (value : α) : Parser α where
  run _ tokens := .ok value tokens []
  rest_suffix _ tokens := List.suffix_refl tokens

protected def bind (parser : Parser α) (next : α → Parser β) : Parser β where
  run final tokens :=
    match parser.run final tokens with
    | .ok value rest started => ((next value).run final rest).after started
    | .fail error rest started => .fail error rest started
  rest_suffix final tokens := by
    have h := parser.rest_suffix final tokens
    split <;> rename_i hrun <;> rw [hrun] at h
    · rw [Reply.rest_after]
      exact ((next _).rest_suffix final _).trans h
    · exact h

instance : Monad Parser where
  pure := Parser.pure
  bind := Parser.bind

@[simp] theorem run_pure (value : α) (final : Position) (tokens : List Token) :
    (pure value : Parser α).run final tokens = .ok value tokens [] := rfl

theorem run_bind_of_ok {parser : Parser α} {next : α → Parser β} {final : Position}
    {tokens rest : List Token} {value : α} {started : List Kind}
    (h : parser.run final tokens = .ok value rest started) :
    (parser >>= next).run final tokens = ((next value).run final rest).after started := by
  simp only [bind, Parser.bind, h]

theorem run_bind_of_fail {parser : Parser α} {next : α → Parser β} {final : Position}
    {tokens rest : List Token} {error : SyntaxError} {started : List Kind}
    (h : parser.run final tokens = .fail error rest started) :
    (parser >>= next).run final tokens = .fail error rest started := by
  simp only [bind, Parser.bind, h]

theorem run_bind_eq_ok_iff {parser : Parser α} {next : α → Parser β} {final : Position}
    {tokens rest : List Token} {result : β} {started : List Kind} :
    (parser >>= next).run final tokens = .ok result rest started ↔
      ∃ value middle earlier later, parser.run final tokens = .ok value middle earlier ∧
        (next value).run final middle = .ok result rest later ∧ started = earlier ++ later := by
  constructor
  · intro h
    cases hfirst : parser.run final tokens with
    | ok value middle earlier =>
      rw [run_bind_of_ok hfirst] at h
      cases hnext : (next value).run final middle with
      | ok result' rest' later =>
        rw [hnext] at h
        cases h
        exact ⟨value, middle, earlier, later, rfl, hnext, rfl⟩
      | fail error rest' later =>
        rw [hnext] at h
        cases h
    | fail error middle earlier =>
      rw [run_bind_of_fail hfirst] at h
      cases h
  · rintro ⟨value, middle, earlier, later, hfirst, hnext, rfl⟩
    rw [run_bind_of_ok hfirst, hnext]
    rfl

private theorem map_id (parser : Parser α) : id <$> parser = parser := by
  apply ext_run
  intro final tokens
  change (parser >>= fun value => pure value).run final tokens = _
  cases h : parser.run final tokens with
  | ok value rest started =>
    rw [run_bind_of_ok h, run_pure]
    simp [Reply.after]
  | fail error rest started => rw [run_bind_of_fail h]

private theorem pure_then (value : α) (next : α → Parser β) : pure value >>= next = next value := by
  apply ext_run
  intro final tokens
  rw [run_bind_of_ok (run_pure value final tokens), Reply.after_nil]

private theorem then_assoc {γ : Type} (parser : Parser α) (next : α → Parser β)
    (last : β → Parser γ) :
    parser >>= next >>= last = parser >>= fun value => next value >>= last := by
  apply ext_run
  intro final tokens
  cases h : parser.run final tokens with
  | fail error rest started =>
    rw [run_bind_of_fail h, run_bind_of_fail (run_bind_of_fail h)]
  | ok value rest started =>
    rw [run_bind_of_ok h]
    cases h' : (next value).run final rest with
    | fail error rest' started' =>
      have hboth : (parser >>= next).run final tokens =
          .fail error rest' (started ++ started') := by
        rw [run_bind_of_ok h, h']
        rfl
      rw [run_bind_of_fail hboth, run_bind_of_fail h']
      rfl
    | ok value' rest' started' =>
      have hboth : (parser >>= next).run final tokens =
          .ok value' rest' (started ++ started') := by
        rw [run_bind_of_ok h, h']
        rfl
      rw [run_bind_of_ok hboth, run_bind_of_ok h', Reply.after_after]

instance : LawfulMonad Parser := .mk' Parser map_id pure_then then_assoc

def fail (cause : Token → Cause) : Parser α where
  run final tokens :=
    let token := frontToken final tokens
    .fail ⟨cause token, token.span.start⟩ tokens []
  rest_suffix _ tokens := List.suffix_refl tokens

/-- Decides by the kind of the token at the front, without taking it. -/
def select (choice : Kind → Parser α) : Parser α where
  run final tokens := (choice (frontToken final tokens).kind).run final tokens
  rest_suffix final tokens := (choice _).rest_suffix final tokens

@[simp] theorem run_fail (cause : Token → Cause) (final : Position) (tokens : List Token) :
    (fail cause : Parser α).run final tokens =
      .fail ⟨cause (frontToken final tokens), (frontToken final tokens).span.start⟩ tokens [] := rfl

@[simp] theorem run_select (choice : Kind → Parser α) (final : Position) (tokens : List Token) :
    (select choice).run final tokens = (choice (frontToken final tokens).kind).run final tokens :=
  rfl

/-- Takes the first token if it is a line break and the second is of the given kind. -/
def skipLineBreakBefore (kind : Kind) : Parser Unit where
  run _ tokens :=
    match tokens with
    | first :: second :: rest =>
      if first.isLineBreak && second.kind = kind then .ok () (second :: rest) []
      else .ok () tokens []
    | _ => .ok () tokens []
  rest_suffix _ tokens := by
    split
    · split
      · exact List.suffix_cons _ _
      · exact List.suffix_refl _
    · exact List.suffix_refl _

end Parser

end ShellFrontend
