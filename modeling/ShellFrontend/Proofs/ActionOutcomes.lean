import ShellFrontend.Proofs.CursorActions
import ShellFrontend.Proofs.GrammarReads
import ShellFrontend.Proofs.ParserEquations
import ShellFrontend.Proofs.SessionRuns

/-! # Outcomes of actions

An action follows a parser if, given calls enough, it ends with the result that the parser gives
for the tokens in front of the cursor, and leaves the session as it was but for the cursor, which
has moved past what the parser took. Actions that are put together from others follow the parsers
put together in the same way; a loop does so because each of its turns takes a token.
-/

set_option autoImplicit false

namespace ShellFrontend

namespace Session

variable {α β : Type}

namespace Action

variable {session after : Session} {action : Action α} {next : α → Action β}

theorem run_bind_of_ok {value : α} (h : action.run session = some (.ok value, after)) :
    (action >>= next).run session = (next value).run after := by
  simp only [bind, h]

theorem run_bind_of_error {error : SyntaxError}
    (h : action.run session = some (.error error, after)) :
    (action >>= next).run session = some (.error error, after) := by
  simp only [bind, h]

theorem run_accept_of_some {meaning : Token → Option α} {cause : Token → Cause} {value : α}
    (h : meaning session.token = some value) :
    (accept meaning cause).run session = some (.ok value, session.advance) := by
  apply (run_bind_of_ok (rfl : (look Session.token).run session = _)).trans
  rw [h]
  rfl

theorem run_accept_of_none {meaning : Token → Option α} {cause : Token → Cause}
    (h : meaning session.token = none) :
    (accept meaning cause).run session = (fail cause).run session := by
  apply (run_bind_of_ok (rfl : (look Session.token).run session = _)).trans
  rw [h]

/-- What is expected is accepted if it is of the kind. -/
theorem run_expect (kind : Kind) (message? : Option String) (session : Session) :
    (expect kind message?).run session =
      (accept (fun token => if token.kind = kind then some token else none) fun token =>
        match message? with
        | some message => .misplaced token.text message
        | none => Advancing.notExpected kind token).run session := by
  by_cases hkind : session.token.kind = kind
  · rw [run_accept_of_some (if_pos hkind)]
    exact congrArg some (if_pos hkind)
  · rw [run_accept_of_none (if_neg hkind)]
    exact congrArg some (if_neg hkind)

theorem run_nested_of_lt (h : session.depth < nestingLimit) :
    (nested action).run session =
      (action.run { session with depth := session.depth + 1 }).map fun (result, after) =>
        (result, { after with depth := after.depth - 1 }) :=
  if_pos h

theorem run_nested_of_le (h : nestingLimit ≤ session.depth) :
    (nested action).run session = (fail fun _ => .tooDeep nestingLimit : Action α).run session :=
  if_neg (Nat.not_lt.2 h)

section loop

variable {turn : β → Action (β ⊕ α)} {state : β} (turns : Nat)

theorem run_loop_of_inl {next : β} (h : (turn state).run session = some (.ok (.inl next), after)) :
    (loop turn (turns + 1) state).run session = (loop turn turns next).run after :=
  run_bind_of_ok h

theorem run_loop_of_inr {value : α}
    (h : (turn state).run session = some (.ok (.inr value), after)) :
    (loop turn (turns + 1) state).run session = some (.ok value, after) :=
  run_bind_of_ok h

theorem run_loop_of_error {error : SyntaxError}
    (h : (turn state).run session = some (.error error, after)) :
    (loop turn (turns + 1) state).run session = some (.error error, after) :=
  run_bind_of_error h

end loop

end Action

/-- With so many calls, and with more, the work on the session ends so. -/
def EndsWith (action : Nat → Action α) (session : Session)
    (outcome : Except SyntaxError α × Session) : Prop :=
  ∃ enough, ∀ calls, enough ≤ calls → (action calls).run session = some outcome

namespace EndsWith

variable {session after : Session} {action : Nat → Action α} {next : Nat → α → Action β}

theorem bind_ok {value : α} {outcome : Except SyntaxError β × Session}
    (h : EndsWith action session (.ok value, after))
    (hnext : EndsWith (fun calls => next calls value) after outcome) :
    EndsWith (fun calls => action calls >>= next calls) session outcome := by
  obtain ⟨enough, hends⟩ := h
  obtain ⟨enough', hends'⟩ := hnext
  refine ⟨max enough enough', fun calls hcalls => ?_⟩
  rw [Nat.max_le] at hcalls
  rw [Action.run_bind_of_ok (hends calls hcalls.1)]
  exact hends' calls hcalls.2

theorem bind_error {error : SyntaxError} (h : EndsWith action session (.error error, after)) :
    EndsWith (fun calls => action calls >>= next calls) session (.error error, after) := by
  obtain ⟨enough, hends⟩ := h
  exact ⟨enough, fun calls hcalls => Action.run_bind_of_error (hends calls hcalls)⟩

end EndsWith

/-- At each session with these rules and so many levels open whose current token is of the kind,
the action ends as the parser says. -/
def FollowsAt (rules : Rules) (depth : Nat) (kind : Kind) (action : Nat → Action α)
    (parser : Parser α) : Prop :=
  ∀ ⦃session : Session⦄, session.rules = rules → session.depth = depth → session.kind = kind →
    EndsWith action session (session.run parser)

def Follows (rules : Rules) (depth : Nat) (action : Nat → Action α) (parser : Parser α) : Prop :=
  ∀ kind, FollowsAt rules depth kind action parser

variable {rules : Rules} {depth : Nat} {kind : Kind}

namespace FollowsAt

theorem bind {action : Nat → Action α} {next : Nat → α → Action β} {parser : Parser α}
    {next' : α → Parser β} (h : FollowsAt rules depth kind action parser)
    (hnext : ∀ value, Follows rules depth (fun calls => next calls value) (next' value)) :
    FollowsAt rules depth kind (fun calls => action calls >>= next calls) (parser >>= next') := by
  intro session hrules hdepth hkind
  have hends := h hrules hdepth hkind
  rw [run_bind]
  rcases hrun : session.run parser with ⟨error | value, after⟩
  · rw [hrun] at hends
    exact hends.bind_error
  · rw [hrun] at hends
    obtain ⟨-, rfl⟩ := Prod.mk.inj hrun
    exact hends.bind_ok (hnext value _ hrules hdepth rfl)

theorem pure (value : α) :
    FollowsAt rules depth kind (fun _ => Pure.pure value) (Pure.pure value) := by
  intro session _ _ _
  rw [run_pure]
  exact ⟨0, fun _ _ => rfl⟩

theorem fail (cause : Token → Cause) :
    FollowsAt rules depth kind (fun _ => (Action.fail cause : Action α)) (Parser.fail cause) := by
  intro session _ _ _
  rw [run_eq, Parser.run_fail, Reply.rest_fail, moveTo_remaining]
  exact ⟨0, fun _ _ => rfl⟩

theorem look {next : Nat → Kind → Action α} {parser : Parser α}
    (h : FollowsAt rules depth kind (fun calls => next calls kind) parser) :
    FollowsAt rules depth kind (fun calls => Action.look Session.kind >>= next calls) parser := by
  rintro session hrules hdepth rfl
  exact h hrules hdepth rfl

theorem rule? {ρ : Type} {table : Rules → Kind → Option ρ} {next : Nat → Option ρ → Action α}
    {parser : Parser α}
    (h : FollowsAt rules depth kind (fun calls => next calls (table rules kind)) parser) :
    FollowsAt rules depth kind (fun calls => Action.rule? table >>= next calls) parser := by
  rintro session rfl hdepth rfl
  exact h rfl hdepth rfl

/-- An action takes a token that it has recognised. -/
theorem advance (hkind : kind ≠ .endOfInput) :
    FollowsAt rules depth kind (fun _ => Action.advance) (Advancing.skip kind) := by
  intro session _ _ hfront
  cases hremaining : session.remaining with
  | nil =>
    rw [Session.kind, token_eq hremaining] at hfront
    exact absurd hfront.symm hkind
  | cons token rest =>
    have hskip : (Advancing.skip kind).run session.final (token :: rest) = .ok () rest [] := by
      rw [Session.kind, token_eq hremaining] at hfront
      exact Advancing.run_skip_of_kind hfront session.final rest
    rw [run_eq, hremaining, hskip, Reply.rest_ok, ← advance_eq hremaining]
    exact ⟨0, fun _ _ => rfl⟩

theorem advance_bind {next : Nat → Action α} {parser : Parser α} (hkind : kind ≠ .endOfInput)
    (h : Follows rules depth next parser) :
    FollowsAt rules depth kind (fun calls => Action.advance >>= fun _ => next calls)
      (Advancing.skip kind >>= fun _ => parser) :=
  (advance hkind).bind fun _ => h

/-- A session takes no note of where statements start. -/
theorem starting {action : Nat → Action α} {parser : Advancing α} (kind' : Kind)
    (h : FollowsAt rules depth kind action parser.toParser) :
    FollowsAt rules depth kind action (Advancing.starting kind' parser).toParser := by
  intro session hrules hdepth hkind
  rw [run_eq, Advancing.run_starting, Reply.result_after, Reply.rest_after]
  exact h hrules hdepth hkind

end FollowsAt

namespace Follows

theorem bind {action : Nat → Action α} {next : Nat → α → Action β} {parser : Parser α}
    {next' : α → Parser β} (h : Follows rules depth action parser)
    (hnext : ∀ value, Follows rules depth (fun calls => next calls value) (next' value)) :
    Follows rules depth (fun calls => action calls >>= next calls) (parser >>= next') :=
  fun kind => (h kind).bind hnext

theorem pure (value : α) : Follows rules depth (fun _ => Pure.pure value) (Pure.pure value) :=
  fun _ => .pure value

theorem bind_pure {action : Nat → Action α} {parser : Parser α}
    (h : Follows rules depth action parser) (f : α → β) :
    Follows rules depth (fun calls => action calls >>= fun value => Pure.pure (f value))
      (parser >>= fun value => Pure.pure (f value)) :=
  h.bind fun value => pure (f value)

/-- An action may decide by the kind of the current token in any way. -/
theorem at_front {action : Nat → Action α} {choice : Kind → Parser α}
    (h : ∀ kind, FollowsAt rules depth kind action (choice kind)) :
    Follows rules depth action (Parser.select choice) := by
  rintro kind session hrules hdepth rfl
  exact h session.kind hrules hdepth rfl

theorem selecting {action : Nat → Action α} {choice : Kind → Advancing α}
    (h : ∀ kind, FollowsAt rules depth kind action (choice kind).toParser) :
    Follows rules depth action (Advancing.select choice).toParser :=
  at_front h

theorem select {next : Nat → Kind → Action α} {choice : Kind → Parser α}
    (h : ∀ kind, FollowsAt rules depth kind (fun calls => next calls kind) (choice kind)) :
    Follows rules depth (fun calls => Action.look Session.kind >>= next calls)
      (Parser.select choice) :=
  at_front fun kind => (h kind).look

theorem accept {meaning : Token → Option α} {cause : Token → Cause}
    (hend : ∀ {position}, meaning (.endMarker position) = none) :
    Follows rules depth (fun _ => Action.accept meaning cause)
      (Advancing.accept meaning cause).toParser := by
  intro kind session _ _ _
  refine ⟨0, fun _ _ => ?_⟩
  have hfail : meaning session.token = none →
      (Action.accept meaning cause).run session = some (session.run (Parser.fail cause)) := by
    intro hnone
    rw [Action.run_accept_of_none hnone, run_eq, Parser.run_fail, Reply.rest_fail, moveTo_remaining]
    rfl
  cases hremaining : session.remaining with
  | nil =>
    rw [hfail (by rw [token_eq hremaining]; exact hend), run_eq, run_eq, hremaining]
    rfl
  | cons token rest =>
    cases hmeaning : meaning token with
    | none =>
      rw [hfail (by rw [token_eq hremaining]; exact hmeaning), run_eq, run_eq, hremaining,
        Advancing.run_accept_of_none hmeaning]
      rfl
    | some value =>
      have hvalue : meaning session.token = some value := by
        rw [token_eq hremaining]
        exact hmeaning
      rw [Action.run_accept_of_some hvalue, run_eq, hremaining,
        Advancing.run_accept_of_some hmeaning, Reply.rest_ok, ← advance_eq hremaining]
      rfl

theorem congr {action action' : Nat → Action α} {parser : Parser α}
    (hsame : ∀ calls session, (action calls).run session = (action' calls).run session)
    (h : Follows rules depth action' parser) : Follows rules depth action parser := by
  intro kind session hrules hdepth hkind
  obtain ⟨enough, hends⟩ := h kind hrules hdepth hkind
  exact ⟨enough, fun calls hcalls => (hsame calls session).trans (hends calls hcalls)⟩

theorem called {action action' : Nat → Action α} {parser : Parser α}
    (hcall : ∀ calls, action (calls + 1) = action' calls)
    (h : Follows rules depth action' parser) : Follows rules depth action parser := by
  intro kind session hrules hdepth hkind
  obtain ⟨enough, hends⟩ := h kind hrules hdepth hkind
  refine ⟨enough + 1, fun calls hcalls => ?_⟩
  obtain ⟨calls, rfl⟩ := Nat.exists_eq_add_of_le' (Nat.le_of_add_left_le hcalls)
  rw [hcall]
  exact hends calls (Nat.le_of_succ_le_succ hcalls)

theorem expect {expected : Kind} (message? : Option String) (hne : expected ≠ .endOfInput) :
    Follows rules depth (fun _ => Action.expect expected message?)
      (Advancing.accept (fun token => if token.kind = expected then some token else none)
        fun token =>
          match message? with
          | some message => .misplaced token.text message
          | none => Advancing.notExpected expected token).toParser :=
  congr (fun _ => Action.run_expect expected message?) (accept (if_neg hne.symm))

/-- A token that carries nothing is expected. -/
theorem expect_bind {expected : Kind} {next : Nat → Action α} {parser : Parser α}
    (hne : expected ≠ .endOfInput) (h : Follows rules depth next parser) :
    Follows rules depth (fun calls => Action.expect expected none >>= fun _ => next calls)
      (Advancing.skip expected >>= fun _ => parser) := by
  rw [Advancing.skip_bind]
  exact (expect none hne).bind fun _ => h

theorem nested {action : Nat → Action α} {parser : Parser α} (hdepth : depth < nestingLimit)
    (h : Follows rules (depth + 1) action parser) :
    Follows rules depth (fun calls => Action.nested (action calls)) parser := by
  rintro kind session hrules rfl hkind
  have hinner : EndsWith action { session with depth := session.depth + 1 } _ :=
    h kind hrules rfl hkind
  obtain ⟨enough, hends⟩ := hinner
  refine ⟨enough, fun calls hcalls => ?_⟩
  rw [Action.run_nested_of_lt hdepth, hends calls hcalls]
  rfl

/-- Where all levels are open nothing is looked at. -/
theorem nested_closed {action : Nat → Action α} (hdepth : nestingLimit ≤ depth) :
    Follows rules depth (fun calls => Action.nested (action calls))
      (Parser.fail fun _ => .tooDeep nestingLimit) := by
  rintro kind session hrules rfl hkind
  obtain ⟨enough, hends⟩ := FollowsAt.fail (α := α) (fun _ => .tooDeep nestingLimit) hrules rfl hkind
  refine ⟨enough, fun calls hcalls => ?_⟩
  rw [Action.run_nested_of_le hdepth]
  exact hends calls hcalls

section loop

variable {turn : Nat → β → Action (β ⊕ α)} {step : β → Parser (β ⊕ α)} {parser : β → Parser α}
  (hturn : ∀ state, Follows rules depth (fun calls => turn calls state) (step state))
  (hparser : ∀ state, parser state = step state >>= Sum.elim parser Pure.pure)
  (hstep : ∀ ⦃state final tokens next rest started⦄,
    (step state).run final tokens = .ok (.inl next) rest started → rest.length < tokens.length)

include hturn hparser hstep

/-- There are turns enough, since each of them takes a token. -/
private theorem exists_turns (session : Session) (hrules : session.rules = rules)
    (hdepth : session.depth = depth) (state : β) :
    ∃ enough, ∀ calls turns, enough ≤ calls → enough ≤ turns →
      (Action.loop (turn calls) turns state).run session = some (session.run (parser state)) := by
  obtain ⟨enough, hends⟩ := hturn state _ hrules hdepth rfl
  have hlast : ∀ {outcome : Except SyntaxError α × Session},
      (∀ calls turns, enough ≤ calls →
        (Action.loop (turn calls) (turns + 1) state).run session = some outcome) →
      ∃ enough, ∀ calls turns, enough ≤ calls → enough ≤ turns →
        (Action.loop (turn calls) turns state).run session = some outcome := by
    intro outcome h
    refine ⟨enough + 1, fun calls turns hcalls hturns => ?_⟩
    obtain ⟨turns, rfl⟩ := Nat.exists_eq_add_of_le' (Nat.le_of_add_left_le hturns)
    exact h calls turns (Nat.le_of_succ_le hcalls)
  rw [hparser, run_bind]
  rcases hrun : session.run (step state) with ⟨error | ⟨next | value⟩, after⟩
  · rw [hrun] at hends
    exact hlast fun calls turns hcalls => Action.run_loop_of_error turns (hends calls hcalls)
  · rw [hrun] at hends
    obtain ⟨rest, started, hok, rfl⟩ := exists_ok_of_run hrun
    have hsuffix : rest <:+ session.remaining := Parser.suffix_of_run hok
    have hlt : (session.moveTo rest).remaining.length < session.remaining.length := by
      rw [remaining_moveTo hsuffix]
      exact hstep hok
    obtain ⟨enough', hends'⟩ := exists_turns (session.moveTo rest) hrules hdepth next
    refine ⟨max enough enough' + 1, fun calls turns hcalls hturns => ?_⟩
    obtain ⟨turns, rfl⟩ := Nat.exists_eq_add_of_le' (Nat.le_of_add_left_le hturns)
    rw [Action.run_loop_of_inl turns (hends calls (by omega))]
    exact hends' calls turns (by omega) (by omega)
  · rw [hrun] at hends
    change ∃ enough, ∀ calls turns, _ → _ → _ = some (after.run (Pure.pure value))
    rw [run_pure]
    exact hlast fun calls turns hcalls => Action.run_loop_of_inr turns (hends calls hcalls)
termination_by session.remaining.length

theorem loop (state : β) :
    Follows rules depth (fun calls => Action.loop (turn calls) calls state) (parser state) := by
  intro kind session hrules hdepth _
  obtain ⟨enough, hends⟩ := exists_turns hturn hparser hstep session hrules hdepth state
  exact ⟨enough, fun calls hcalls => hends calls calls hcalls hcalls⟩

end loop

/-- A loop that gathers items in its state turns as often as a repetition. -/
theorem gather {ε : Type} {turn : Kind → Turn ε} {turn' : Nat → α → Action (α ⊕ α)}
    {extend : α → ε → α}
    (h : ∀ state kind, FollowsAt rules depth kind (fun calls => turn' calls state)
      (Parser.gatherTurn extend state (turn kind)))
    (state : α) :
    Follows rules depth (fun calls => Action.loop (turn' calls) calls state)
      (Parser.gather turn extend state) :=
  loop (fun state => at_front (h state)) (Parser.gather_eq turn extend)
    (fun _ _ _ _ _ _ hrun => Parser.rest_length_lt_of_gatherTurn hrun) state

end Follows

end Session

end ShellFrontend
