import ShellFrontend.Parser.Advancing

/-! # Repetition

A repeated parser decides before each turn, by the kind of the token at the front,
whether to read one more item or to stop. It ends because each item takes a token.
-/

set_option autoImplicit false

namespace ShellFrontend

inductive Turn (α : Type) where
  | more (item : Advancing α)
  | stop (last : Parser Unit)

namespace Parser

variable {α : Type}

def runMany (turn : Kind → Turn α) (final : Position) (tokens : List Token) : Reply (List α) :=
  match turn (frontToken final tokens).kind with
  | .stop last => (last.run final tokens).map fun _ => []
  | .more item =>
    match _h : item.run final tokens with
    | .ok value rest started => ((runMany turn final rest).map (value :: ·)).after started
    | .fail error rest started => .fail error rest started
termination_by tokens.length
decreasing_by exact item.rest_length_lt _h

theorem runMany_of_stop {turn : Kind → Turn α} {final : Position} {tokens : List Token}
    {last : Parser Unit} (h : turn (frontToken final tokens).kind = .stop last) :
    runMany turn final tokens = (last.run final tokens).map fun _ => [] := by
  rw [runMany, h]

theorem runMany_of_ok {turn : Kind → Turn α} {final : Position} {tokens rest : List Token}
    {item : Advancing α} {value : α} {started : List Kind}
    (h : turn (frontToken final tokens).kind = .more item)
    (hitem : item.run final tokens = .ok value rest started) :
    runMany turn final tokens = ((runMany turn final rest).map (value :: ·)).after started := by
  rw [runMany, h]
  simp only
  split
  · rename_i hrun
    rw [hitem] at hrun
    cases hrun
    rfl
  · rename_i hrun
    rw [hitem] at hrun
    cases hrun

theorem runMany_of_fail {turn : Kind → Turn α} {final : Position} {tokens rest : List Token}
    {item : Advancing α} {error : SyntaxError} {started : List Kind}
    (h : turn (frontToken final tokens).kind = .more item)
    (hitem : item.run final tokens = .fail error rest started) :
    runMany turn final tokens = .fail error rest started := by
  rw [runMany, h]
  simp only
  split
  · rename_i hrun
    rw [hitem] at hrun
    cases hrun
  · rename_i hrun
    rw [hitem] at hrun
    cases hrun
    rfl

theorem runMany_rest_suffix (turn : Kind → Turn α) (final : Position) (tokens : List Token) :
    (runMany turn final tokens).rest <:+ tokens := by
  fun_induction runMany turn final tokens with
  | case1 tokens last _ =>
    rw [Reply.rest_map]
    exact last.rest_suffix final tokens
  | case2 tokens item _ value rest started hrun ih =>
    rw [Reply.rest_after, Reply.rest_map]
    have h := item.rest_suffix final tokens
    rw [hrun] at h
    exact ih.trans h
  | case3 tokens item _ error rest started hrun =>
    have h := item.rest_suffix final tokens
    rwa [hrun] at h

/-- Items for as long as the turns say so. -/
def many (turn : Kind → Turn α) : Parser (List α) :=
  ⟨runMany turn, runMany_rest_suffix turn⟩

end Parser

end ShellFrontend
