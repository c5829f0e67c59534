import ShellFrontend.Grammar.CommaList

/-! # Equations between parsers

A repetition is one turn and the repetition behind it, and the items of a list are one item, what
stands behind it, and the items behind that.
-/

set_option autoImplicit false

namespace ShellFrontend

theorem Advancing.skip_bind {α : Type} (kind : Kind) (next : Parser α) :
    (skip kind >>= fun _ => next) = (token kind).toParser >>= fun _ => next := by
  rw [skip, bind_assoc]
  simp only [pure_bind]

theorem Advancing.map_bind {α β γ : Type} (parser : Advancing α) (f : α → β)
    (next : β → Parser γ) :
    (parser.map f).toParser >>= next = parser.toParser >>= fun value => next (f value) := by
  change (parser.toParser >>= fun value => pure (f value)) >>= next = _
  simp only [bind_assoc, pure_bind]

namespace Parser

variable {α β : Type}

theorem select_bind (choice : Kind → Parser α) (next : α → Parser β) :
    select choice >>= next = select fun kind => choice kind >>= next :=
  ext_run fun _ _ => rfl

theorem fail_bind (cause : Token → Cause) (next : α → Parser β) :
    fail cause >>= next = fail cause :=
  ext_run fun _ _ => rfl

theorem many_eq (turn : Kind → Turn α) :
    many turn = select fun kind =>
      match turn kind with
      | .more item => item.toParser >>= fun value => many turn >>= fun others => pure (value :: others)
      | .stop last => last >>= fun _ => pure [] := by
  apply ext_run
  intro final tokens
  rw [run_select]
  change runMany turn final tokens = _
  cases hturn : turn (frontToken final tokens).kind with
  | stop last =>
    rw [runMany_of_stop hturn]
    cases hlast : last.run final tokens with
    | fail error rest started => exact (run_bind_of_fail hlast).symm
    | ok value rest started =>
      rw [run_bind_of_ok hlast]
      simp [Reply.map, Reply.after]
  | more item =>
    cases hitem : item.run final tokens with
    | fail error rest started =>
      rw [runMany_of_fail hturn hitem]
      exact (run_bind_of_fail hitem).symm
    | ok value rest started =>
      rw [runMany_of_ok hturn hitem]
      apply Eq.trans _ (run_bind_of_ok hitem).symm
      congr 1
      cases hothers : runMany turn final rest with
      | fail error rest' started' => exact (run_bind_of_fail hothers).symm
      | ok others rest' started' =>
        apply Eq.trans _ (run_bind_of_ok hothers).symm
        simp [Reply.map, Reply.after]

/-- What a repetition brings, gathered behind a state. -/
def gather {ε σ : Type} (turn : Kind → Turn ε) (extend : σ → ε → σ) (state : σ) : Parser σ :=
  many turn >>= fun values => pure (values.foldl extend state)

/-- One turn of what is gathered: the state is extended, or is the last. -/
def gatherTurn {ε σ : Type} (extend : σ → ε → σ) (state : σ) : Turn ε → Parser (σ ⊕ σ)
  | .more item => item.toParser >>= fun value => pure (.inl (extend state value))
  | .stop last => last >>= fun _ => pure (.inr state)

theorem gather_eq {ε σ : Type} (turn : Kind → Turn ε) (extend : σ → ε → σ) (state : σ) :
    gather turn extend state =
      (select fun kind => gatherTurn extend state (turn kind)) >>=
        Sum.elim (gather turn extend) pure := by
  unfold gather
  conv => lhs; rw [many_eq]
  rw [select_bind, select_bind]
  congr 1
  funext kind
  cases turn kind with
  | more item => simp only [gatherTurn, bind_assoc, pure_bind, List.foldl_cons, Sum.elim_inl]
  | stop last => simp only [gatherTurn, bind_assoc, pure_bind, List.foldl_nil, Sum.elim_inr]

theorem rest_length_lt_of_gatherTurn {ε σ : Type} {turn : Turn ε} {extend : σ → ε → σ}
    {state next : σ} {final : Position} {tokens rest : List Token} {started : List Kind}
    (h : (gatherTurn extend state turn).run final tokens = .ok (.inl next) rest started) :
    rest.length < tokens.length := by
  cases turn with
  | more item =>
    obtain ⟨value, middle, _, _, hitem, hpure, -⟩ := run_bind_eq_ok_iff.1 h
    cases hpure
    exact item.rest_length_lt hitem
  | stop last =>
    obtain ⟨_, _, _, _, _, hpure, -⟩ := run_bind_eq_ok_iff.1 h
    cases hpure

end Parser

namespace CommaList

variable {α : Type} (what : String) (item : Advancing α)

/-- An item with the comma or parenthesis behind it; the items go on behind a comma. -/
def entry (before : List α) : Advancing (List α ⊕ List α) :=
  item.andThen fun value => .select fun
    | .comma => Advancing.skip .comma >>= fun _ => .select fun
      | .closeParen => .fail fun token => .misplaced token.text ("trailing comma in " ++ what)
      | _ => pure (.inl (before ++ [value]))
    | _ => Advancing.skip .closeParen >>= fun _ => pure (.inr (before ++ [value]))

/-- Items behind others that have been read before. -/
def itemsBehind (before : List α) : Parser (List α) :=
  items what item >>= fun others => pure (before ++ others)

theorem itemsBehind_nil : itemsBehind what item [] = items what item := by
  simp [itemsBehind]

theorem itemsBehind_eq (before : List α) :
    itemsBehind what item before =
      (entry what item before).toParser >>= Sum.elim (itemsBehind what item) pure := by
  unfold itemsBehind items
  conv => lhs; rw [Parser.many_eq]
  change _ = (item.toParser >>= fun value => _) >>= _
  simp only [bind_assoc, Parser.select_bind]
  congr 1
  funext value
  congr 1
  funext kind
  cases kind with
  | comma =>
    -- An item is read unless the list is closed, in the next turn here and by the next entry there.
    change (((Advancing.token .comma).toParser >>= fun _ => itemAfterComma what item) >>= _) >>= _ = _
    simp only [bind_assoc, Advancing.skip_bind, itemAfterComma, Parser.select_bind]
    congr 1
    funext _
    congr 1
    funext kind
    cases kind with
    | closeParen => rw [Parser.fail_bind, Parser.fail_bind]
    | _ =>
      simp only [pure_bind, Sum.elim_inl, List.append_assoc]
      rfl
  | _ =>
    change (Advancing.skip .closeParen >>= fun _ => pure []) >>= _ = _
    simp only [bind_assoc, pure_bind]
    rfl

end CommaList

end ShellFrontend
