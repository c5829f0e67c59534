import ShellFrontend.Parser.Basic

/-! # Parsers that advance

A parser advances if it takes at least one token whenever it succeeds. Repetition and
nesting end because of it.
-/

set_option autoImplicit false

namespace ShellFrontend

/-- A parser that takes at least one token whenever it succeeds. -/
structure Advancing (α : Type) extends Parser α where
  rest_length_lt : ∀ {final tokens value rest started},
    run final tokens = .ok value rest started → rest.length < tokens.length

namespace Advancing

variable {α β : Type}

def andThen (parser : Advancing α) (next : α → Parser β) : Advancing β where
  toParser := parser.toParser >>= next
  rest_length_lt {final tokens value rest started} h := by
    simp only [bind, Parser.bind] at h
    split at h
    · rename_i first middle earlier hfirst
      have hsuffix := (next first).rest_suffix final middle
      rw [← Reply.rest_after earlier, h] at hsuffix
      exact Nat.lt_of_le_of_lt hsuffix.length_le (parser.rest_length_lt hfirst)
    · cases h

protected def map (f : α → β) (parser : Advancing α) : Advancing β :=
  parser.andThen fun value => pure (f value)

instance : Functor Advancing where
  map := Advancing.map

def fail (cause : Token → Cause) : Advancing α where
  toParser := .fail cause
  rest_length_lt h := by cases h

def select (choice : Kind → Advancing α) : Advancing α where
  toParser := .select fun kind => (choice kind).toParser
  rest_length_lt h := (choice _).rest_length_lt h

/-- Takes the token at the front if it means something; the end marker never does. -/
def accept (meaning : Token → Option α) (cause : Token → Cause) : Advancing α where
  run final tokens :=
    match tokens with
    | [] => .fail ⟨cause (.endMarker final), final⟩ [] []
    | token :: rest =>
      match meaning token with
      | some value => .ok value rest []
      | none => .fail ⟨cause token, token.span.start⟩ tokens []
  rest_suffix _ tokens := by
    split
    · exact List.suffix_refl _
    · split
      · exact List.suffix_cons _ _
      · exact List.suffix_refl _
  rest_length_lt {final tokens value rest started} h := by
    split at h
    · cases h
    · split at h
      · cases h
        exact Nat.lt_succ_self _
      · cases h

theorem run_select (choice : Kind → Advancing α) (final : Position) (tokens : List Token) :
    (select choice).run final tokens = (choice (frontToken final tokens).kind).run final tokens :=
  rfl

theorem run_accept_of_some {meaning : Token → Option α} {cause : Token → Cause} {token : Token}
    {value : α} (h : meaning token = some value) (final : Position) (rest : List Token) :
    (accept meaning cause).run final (token :: rest) = .ok value rest [] := by
  simp only [accept, h]

theorem run_accept_of_none {meaning : Token → Option α} {cause : Token → Cause} {token : Token}
    (h : meaning token = none) (final : Position) (rest : List Token) :
    (accept meaning cause).run final (token :: rest) =
      .fail ⟨cause token, token.span.start⟩ (token :: rest) [] := by
  simp only [accept, h]

def notExpected (kind : Kind) (token : Token) : Cause :=
  if token.kind = .illegal then .illegal token.text
  else .unexpected kind token.kind token.text

def token (kind : Kind) : Advancing Token :=
  accept (fun token => if token.kind = kind then some token else none) (notExpected kind)

/-- A token of one kind that carries nothing. -/
def skip (kind : Kind) : Parser Unit :=
  (token kind).toParser >>= fun _ => pure ()

/-- Notes that a statement starts with a token of this kind. -/
def starting (kind : Kind) (parser : Advancing α) : Advancing α where
  run final tokens := (parser.run final tokens).after [kind]
  rest_suffix final tokens := by
    rw [Reply.rest_after]
    exact parser.rest_suffix final tokens
  rest_length_lt {final tokens value rest started} h := by
    cases hrun : parser.run final tokens with
    | ok value' rest' started' =>
      rw [hrun] at h
      cases h
      exact parser.rest_length_lt hrun
    | fail error rest' started' =>
      rw [hrun] at h
      cases h

theorem run_starting (kind : Kind) (parser : Advancing α) (final : Position) (tokens : List Token) :
    (starting kind parser).run final tokens = (parser.run final tokens).after [kind] := rfl

end Advancing

end ShellFrontend
