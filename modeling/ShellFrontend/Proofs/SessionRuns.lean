import ShellFrontend.Session

/-! # Where a run leaves the cursor

A run of a parser moves the cursor to where the parser's rest is left and does nothing else to the
session. So runs follow one another as the parsers do.
-/

set_option autoImplicit false

namespace ShellFrontend

theorem Reply.result_after {α : Type} (earlier : List Kind) (reply : Reply α) :
    (reply.after earlier).result = reply.result := by
  cases reply <;> rfl

namespace Session

variable {α β : Type}

/-- The cursor moved to where `rest` is left. -/
def moveTo (session : Session) (rest : List Token) : Session :=
  { session with cursor := session.cursor + (session.remaining.length - rest.length) }

variable {session after : Session} {rest rest' : List Token}

theorem run_eq (session : Session) (parser : Parser α) :
    session.run parser = ((parser.run session.final session.remaining).result,
      session.moveTo (parser.run session.final session.remaining).rest) :=
  rfl

@[simp] theorem moveTo_remaining (session : Session) : session.moveTo session.remaining = session := by
  simp [moveTo]

theorem remaining_moveTo (h : rest <:+ session.remaining) : (session.moveTo rest).remaining = rest := by
  obtain ⟨read, hread⟩ := h
  have hcursor : (session.moveTo rest).remaining =
      session.remaining.drop (session.remaining.length - rest.length) := by
    simp [moveTo, remaining, List.drop_drop]
  rw [hcursor, ← hread, List.length_append, Nat.add_sub_cancel, List.drop_left]

theorem moveTo_moveTo (h : rest <:+ session.remaining) (h' : rest' <:+ rest) :
    (session.moveTo rest).moveTo rest' = session.moveTo rest' := by
  have hle := h.length_le
  have hle' := h'.length_le
  rw [moveTo, remaining_moveTo h]
  simp only [moveTo, Session.mk.injEq, true_and, and_true]
  omega

theorem token_eq (h : session.remaining = rest) :
    session.token = frontToken session.final rest := by
  rw [token, h]

theorem advance_eq {token : Token} (h : session.remaining = token :: rest) :
    session.advance = session.moveTo rest := by
  have hcursor : session.cursor < session.tokens.length := by
    have hlength := congrArg List.length h
    simp only [remaining, List.length_drop, List.length_cons] at hlength
    omega
  rw [advance, if_pos hcursor, moveTo, h, List.length_cons, Nat.add_sub_cancel_left]

/-- The second parser goes on where the first stopped. -/
theorem run_bind (session : Session) (parser : Parser α) (next : α → Parser β) :
    session.run (parser >>= next) =
      match session.run parser with
      | (.ok value, after) => after.run (next value)
      | (.error error, after) => (.error error, after) := by
  rw [run_eq session parser, run_eq]
  cases hrun : parser.run session.final session.remaining with
  | fail error rest started =>
    rw [Parser.run_bind_of_fail hrun]
    rfl
  | ok value rest started =>
    have hsuffix : rest <:+ session.remaining := Parser.suffix_of_run hrun
    have hnext := (next value).rest_suffix session.final rest
    rw [Parser.run_bind_of_ok hrun, Reply.result_after, Reply.rest_after,
      ← moveTo_moveTo hsuffix hnext]
    change _ = (session.moveTo rest).run (next value)
    rw [run_eq, remaining_moveTo hsuffix]
    rfl

theorem run_pure (session : Session) (value : α) :
    session.run (pure value) = (.ok value, session) := by
  rw [run_eq, Parser.run_pure, Reply.rest_ok, moveTo_remaining]
  rfl

theorem exists_ok_of_run {parser : Parser α} {value : α}
    (h : session.run parser = (.ok value, after)) :
    ∃ rest started, parser.run session.final session.remaining = .ok value rest started ∧
      after = { session with
        cursor := session.cursor + (session.remaining.length - rest.length) } := by
  rw [run_eq] at h
  cases hreply : parser.run session.final session.remaining with
  | fail error rest started =>
    rw [hreply] at h
    cases h
  | ok value' rest started =>
    rw [hreply] at h
    cases h
    exact ⟨rest, started, rfl, rfl⟩

theorem exists_fail_of_run {parser : Parser α} {error : SyntaxError}
    (h : session.run parser = (.error error, after)) :
    ∃ rest started, parser.run session.final session.remaining = .fail error rest started ∧
      after = { session with
        cursor := session.cursor + (session.remaining.length - rest.length) } := by
  rw [run_eq] at h
  cases hreply : parser.run session.final session.remaining with
  | ok value rest started =>
    rw [hreply] at h
    cases h
  | fail error' rest started =>
    rw [hreply] at h
    cases h
    exact ⟨rest, started, rfl, rfl⟩

end Session

end ShellFrontend
