import ShellFrontend.Proofs.Phrases
import ShellFrontend.Session
import ShellFrontend.Token.Tokenize

/-! # Chains of operators

A chain is a number of operands with infix operators between them, each operand a literal or a
name under prefix operators. Whatever powers the rules give to the operators, the parser takes
those above its floor and builds the tree in which the last of the operators that bind least
stands over the trees of what is on its two sides.
-/

set_option autoImplicit false

namespace ShellFrontend

/-- A prefix operator and its token. -/
structure Sign where
  op : UnaryOperator
  token : Token
  kind_eq : op.kind = token.kind

/-- The tokens that are operands by themselves. -/
inductive Atom : Token → Expr → Prop
  | literal {token : Token} {value : Expr} (h : Literal token value) : Atom token value
  | identifier {token : Token} (h : token.kind = .identifier) :
      Atom token (.identifier token.text)

/-- An operand of a chain. -/
structure Factor where
  signs : List Sign
  token : Token
  value : Expr
  isAtom : Atom token value

namespace Factor

def tokens (factor : Factor) : List Token :=
  factor.signs.map Sign.token ++ [factor.token]

/-- The first prefix operator is the outermost. -/
def tree (factor : Factor) : Expr :=
  factor.signs.foldr (fun sign right => .unary sign.op right) factor.value

/-- A name in front of a parenthesis would be a call. -/
def Precedes (final : Position) (factor : Factor) (rest : List Token) : Prop :=
  factor.token.kind = .identifier → (frontToken final rest).kind ≠ .openParen

end Factor

/-- An infix operator that has a power, and its right operand. -/
structure Link (rules : Rules) where
  op : BinaryOperator
  token : Token
  power : Power
  right : Factor
  kind_eq : op.kind = token.kind
  operator_eq : rules.operator token.kind = some power

namespace Link

variable {rules : Rules}

def tokens (link : Link rules) : List Token :=
  link.token :: link.right.tokens

def isAbove (floor : Power) (link : Link rules) : Bool :=
  floor.rank < link.power.rank

end Link

/-- One of some links, with those in front of it and those behind it. -/
structure Split (rules : Rules) where
  before : List (Link rules)
  least : Link rules
  after : List (Link rules)

namespace Split

variable {rules : Rules}

def links (split : Split rules) : List (Link rules) :=
  split.before ++ split.least :: split.after

/-- No link binds less, and those behind bind more. -/
structure IsWeakest (split : Split rules) : Prop where
  le_before : ∀ link ∈ split.before, split.least.power.rank ≤ link.power.rank
  lt_after : ∀ link ∈ split.after, split.least.power.rank < link.power.rank

theorem IsWeakest.le_of_mem {split : Split rules} (h : split.IsWeakest) {link : Link rules}
    (hlink : link ∈ split.links) : split.least.power.rank ≤ link.power.rank := by
  rcases List.mem_append.1 hlink with hbefore | hafter
  · exact h.le_before link hbefore
  · rcases List.mem_cons.1 hafter with rfl | hafter
    · exact Nat.le_refl _
    · exact Nat.le_of_lt (h.lt_after link hafter)

/-- The last of the links that bind least. -/
def weakest (link : Link rules) : List (Link rules) → Split rules
  | [] => ⟨[], link, []⟩
  | next :: links =>
    let split := weakest next links
    if split.least.power.rank ≤ link.power.rank then { split with before := link :: split.before }
    else ⟨[], link, next :: links⟩

theorem links_weakest (link : Link rules) (links : List (Link rules)) :
    (weakest link links).links = link :: links := by
  induction links generalizing link with
  | nil => rfl
  | cons next links ih =>
    rw [weakest]
    split
    · exact congrArg (link :: ·) (ih next)
    · rfl

theorem isWeakest_weakest (link : Link rules) (links : List (Link rules)) :
    (weakest link links).IsWeakest := by
  induction links generalizing link with
  | nil => exact ⟨List.forall_mem_nil _, List.forall_mem_nil _⟩
  | cons next links ih =>
    have hnext := ih next
    rw [weakest]
    split
    · rename_i hle
      exact ⟨List.forall_mem_cons.2 ⟨hle, hnext.le_before⟩, hnext.lt_after⟩
    · rename_i hlt
      refine ⟨List.forall_mem_nil _, fun other hother => ?_⟩
      rw [← links_weakest next links] at hother
      exact Nat.lt_of_lt_of_le (Nat.lt_of_not_le hlt) (hnext.le_of_mem hother)

theorem IsWeakest.unique {split split' : Split rules} (h : split.IsWeakest) (h' : split'.IsWeakest)
    (hlinks : split.links = split'.links) : split = split' := by
  obtain ⟨before, least, after⟩ := split
  obtain ⟨before', least', after'⟩ := split'
  have heq : before ++ least :: after = before' ++ least' :: after' := hlinks
  -- Of two, the one behind would bind more than the one in front and no more than it.
  induction before generalizing before' with
  | nil =>
    cases before' with
    | nil =>
      obtain ⟨rfl, rfl⟩ := List.cons.inj heq
      rfl
    | cons first before' =>
      obtain ⟨rfl, rfl⟩ := List.cons.inj heq
      have hlt := h.lt_after least' (by simp)
      have hle := h'.le_before least List.mem_cons_self
      exact absurd hle (Nat.not_le.2 hlt)
  | cons first before ih =>
    cases before' with
    | nil =>
      obtain ⟨rfl, rfl⟩ := List.cons.inj heq
      have hlt := h'.lt_after least (by simp)
      have hle := h.le_before first List.mem_cons_self
      exact absurd hle (Nat.not_le.2 hlt)
    | cons first' before' =>
      obtain ⟨rfl, htail⟩ := List.cons.inj heq
      have hbefore : IsWeakest ⟨before, least, after⟩ :=
        ⟨fun link hlink => h.le_before link (List.mem_cons_of_mem _ hlink), h.lt_after⟩
      have hbefore' : IsWeakest ⟨before', least', after'⟩ :=
        ⟨fun link hlink => h'.le_before link (List.mem_cons_of_mem _ hlink), h'.lt_after⟩
      obtain ⟨rfl, rfl, rfl⟩ := Split.mk.inj (ih hbefore before' hbefore' htail htail)
      rfl

theorem IsWeakest.append {before after front : List (Link rules)} {least : Link rules}
    (h : IsWeakest ⟨before, least, after⟩)
    (hfront : ∀ link ∈ front, least.power.rank ≤ link.power.rank) :
    IsWeakest ⟨front ++ before, least, after⟩ where
  le_before link hlink := by
    rcases List.mem_append.1 hlink with hlink | hlink
    · exact hfront link hlink
    · exact h.le_before link hlink
  lt_after := h.lt_after

theorem length_before_lt (split : Split rules) : split.before.length < split.links.length := by
  rw [links, List.length_append, List.length_cons]
  omega

theorem length_after_lt (split : Split rules) : split.after.length < split.links.length := by
  rw [links, List.length_append, List.length_cons]
  omega

end Split

/-- Operands with operators between them. -/
structure Chain (rules : Rules) where
  first : Factor
  links : List (Link rules)

namespace Chain

variable {rules : Rules}

/-- The tree of some links behind an expression, with the last of those that bind least as its
root. -/
def extend (left : Expr) : List (Link rules) → Expr
  | [] => left
  | link :: links =>
    let split := Split.weakest link links
    .binary (extend left split.before) split.least.op (extend split.least.right.tree split.after)
termination_by links => links.length
decreasing_by
  · exact Split.links_weakest link links ▸ (Split.weakest link links).length_before_lt
  · exact Split.links_weakest link links ▸ (Split.weakest link links).length_after_lt

theorem extend_nil (left : Expr) : extend left ([] : List (Link rules)) = left := by
  rw [extend]

theorem extend_singleton (left : Expr) (link : Link rules) :
    extend left [link] = .binary left link.op link.right.tree := by
  rw [extend, Split.weakest]
  dsimp only
  rw [extend_nil, extend_nil]

theorem extend_links (left : Expr) {split : Split rules} (h : split.IsWeakest) :
    extend left split.links =
      .binary (extend left split.before) split.least.op
        (extend split.least.right.tree split.after) := by
  cases hlinks : split.links with
  | nil => exact absurd hlinks (by simp [Split.links])
  | cons link links =>
    have hsplit := Split.links_weakest link links
    have hsame : Split.weakest link links = split :=
      (Split.isWeakest_weakest link links).unique h (hsplit.trans hlinks.symm)
    rw [extend, hsame]

theorem extend_cons_append (left : Expr) (link : Link rules) {inner outer : List (Link rules)}
    (hinner : ∀ other ∈ inner, link.power.rank < other.power.rank)
    (houter : ∀ other ∈ outer.head?, other.power.rank ≤ link.power.rank) :
    extend left (link :: (inner ++ outer)) =
      extend (.binary left link.op (extend link.right.tree inner)) outer := by
  cases hcases : outer with
  | nil =>
    have hlast : Split.IsWeakest ⟨[], link, inner⟩ := ⟨List.forall_mem_nil _, hinner⟩
    rw [List.append_nil, extend_nil]
    exact (extend_links left hlast).trans (by rw [extend_nil])
  | cons next rest =>
    -- What splits the outer links splits all of them, since it does not bind more than `link`.
    obtain ⟨before, least, after, hlinks, hsplit⟩ : ∃ before least after,
        before ++ least :: after = next :: rest ∧ Split.IsWeakest ⟨before, least, after⟩ :=
      ⟨_, _, _, Split.links_weakest next rest, Split.isWeakest_weakest next rest⟩
    have hnext : next.power.rank ≤ link.power.rank := houter next (by rw [hcases]; rfl)
    have hmem : next ∈ before ++ least :: after := by rw [hlinks]; exact List.mem_cons_self
    have hle : least.power.rank ≤ link.power.rank := Nat.le_trans (hsplit.le_of_mem hmem) hnext
    have hfront : ∀ other ∈ link :: inner, least.power.rank ≤ other.power.rank :=
      List.forall_mem_cons.2 ⟨hle, fun other hother =>
        Nat.le_trans hle (Nat.le_of_lt (hinner other hother))⟩
    have hbefore : ∀ other ∈ before.head?, other.power.rank ≤ link.power.rank := by
      cases before with
      | nil => exact fun _ h => absurd h (by simp)
      | cons first before =>
        obtain ⟨rfl, -⟩ := List.cons.inj hlinks
        intro other hother
        obtain rfl := Option.some.inj hother
        exact hnext
    have hshorter : before.length < outer.length := by
      rw [hcases, ← hlinks]
      exact Split.length_before_lt ⟨before, least, after⟩
    have hassoc : link :: (inner ++ (before ++ least :: after)) =
        Split.links ⟨link :: inner ++ before, least, after⟩ := by simp [Split.links]
    rw [← hlinks, hassoc, extend_links left (hsplit.append hfront)]
    dsimp only
    rw [List.cons_append, extend_cons_append left link hinner hbefore]
    exact (extend_links _ hsplit).symm
termination_by outer.length

theorem isAbove_of_mem_takeWhile {floor : Power} {link : Link rules} (habove : link.isAbove floor)
    {links : List (Link rules)} :
    ∀ other ∈ links.takeWhile (Link.isAbove link.power), other.isAbove floor := by
  intro other hother
  have hmore : other.isAbove link.power := List.all_eq_true.1 List.all_takeWhile other hother
  simp only [Link.isAbove, decide_eq_true_eq] at habove hmore ⊢
  omega

theorem extend_takeWhile (left : Expr) {floor : Power} {link : Link rules}
    (habove : link.isAbove floor) (links : List (Link rules)) :
    extend left ((link :: links).takeWhile (Link.isAbove floor)) =
      extend (.binary left link.op
          (extend link.right.tree (links.takeWhile (Link.isAbove link.power))))
        ((links.dropWhile (Link.isAbove link.power)).takeWhile (Link.isAbove floor)) := by
  have hinner : ∀ other ∈ links.takeWhile (Link.isAbove link.power),
      link.power.rank < other.power.rank := fun other hother =>
    of_decide_eq_true (List.all_eq_true.1 List.all_takeWhile other hother)
  have houter : ∀ other ∈ ((links.dropWhile (Link.isAbove link.power)).takeWhile
      (Link.isAbove floor)).head?, other.power.rank ≤ link.power.rank := by
    intro other hother
    rw [List.head?_takeWhile] at hother
    have hnot := List.head?_dropWhile_not (Link.isAbove link.power) links
    rw [(Option.filter_eq_some_iff.1 hother).1] at hnot
    exact Nat.not_lt.1 (of_decide_eq_false hnot)
  have hsplit : links.takeWhile (Link.isAbove floor) =
      links.takeWhile (Link.isAbove link.power) ++
        (links.dropWhile (Link.isAbove link.power)).takeWhile (Link.isAbove floor) := by
    rw [← List.takeWhile_append_of_pos (isAbove_of_mem_takeWhile habove),
      List.takeWhile_append_dropWhile]
  rw [List.takeWhile_cons_of_pos habove, hsplit]
  exact extend_cons_append left link hinner houter

theorem dropWhile_dropWhile {floor : Power} {link : Link rules} (habove : link.isAbove floor)
    (links : List (Link rules)) :
    (links.dropWhile (Link.isAbove link.power)).dropWhile (Link.isAbove floor) =
      (link :: links).dropWhile (Link.isAbove floor) := by
  rw [List.dropWhile_cons_of_pos habove,
    ← List.dropWhile_append_of_pos (isAbove_of_mem_takeWhile habove),
    List.takeWhile_append_dropWhile]

def tokensOf (links : List (Link rules)) : List Token :=
  links.flatMap Link.tokens

def tokens (chain : Chain rules) : List Token :=
  chain.first.tokens ++ tokensOf chain.links

def tree (chain : Chain rules) : Expr :=
  extend chain.first.tree chain.links

/-- The part in front of the first operator that is not above the floor. -/
def above (floor : Power) (chain : Chain rules) : Chain rules :=
  ⟨chain.first, chain.links.takeWhile (Link.isAbove floor)⟩

def last (chain : Chain rules) : Factor :=
  match chain.links.getLast? with
  | some link => link.right
  | none => chain.first

/-- The length of the longest run of prefix operators. -/
def longestRun (chain : Chain rules) : Nat :=
  chain.links.foldr (fun link run => max link.right.signs.length run) chain.first.signs.length

/-- The operands can be read where they stand, and the tokens behind do not go on the chain. -/
def Readable (final : Position) (rest : List Token) (run : Nat) : List (Link rules) → Prop
  | [] => rules.operator (frontToken final rest).kind = none
  | link :: links =>
    link.right.signs.length ≤ run ∧ link.right.Precedes final (tokensOf links ++ rest) ∧
      Readable final rest run links

theorem Readable.dropWhile {final : Position} {rest : List Token} {run : Nat}
    {links : List (Link rules)} (h : Readable final rest run links) (test : Link rules → Bool) :
    Readable final rest run (links.dropWhile test) := by
  induction links with
  | nil => exact h
  | cons link links ih =>
    rw [List.dropWhile_cons]
    split
    · exact ih h.2.2
    · exact h

end Chain

theorem Power.rank_le_unary (power : Power) : power.rank ≤ Power.unary.rank := by
  cases power <;> decide

section runs

variable {rules : Rules} {final : Position} {tokens rest : List Token}

theorem Expression.turn_unary (layer : Layer) (kind : Kind) :
    turn rules layer .unary kind = .stop (pure ()) := by
  unfold turn
  split
  · rename_i power _
    exact if_neg (Nat.not_lt.2 power.rank_le_unary)
  · rfl

theorem run_expression {layer : Layer} {floor : Power} {first : Expr} {middle : List Token}
    {steps : List (BinaryOperator × Expr)}
    (hfirst : (operand rules layer).run final tokens = .ok first middle [])
    (hsteps : (Parser.many (Expression.turn rules layer floor)).run final middle =
      .ok steps rest []) :
    (expression rules layer floor).run final tokens =
      .ok (steps.foldl Expression.combine first) rest [] := by
  apply (Parser.run_bind_of_ok hfirst).trans
  rw [Reply.after_nil, Parser.run_bind_of_ok hsteps]
  rfl

variable (hrules : rules.operand = Rules.standard.operand)

include hrules

theorem run_operand_of_atom {layer : Layer} {token : Token} {value : Expr} (h : Atom token value)
    (hnext : token.kind = .identifier → (frontToken final rest).kind ≠ .openParen) :
    (operand rules layer).run final (token :: rest) = .ok value rest [] := by
  cases h with
  | literal h => exact run_operand_of_literal (by rw [hrules, h.kind]) h
  | identifier h => exact run_operand_of_identifier (by rw [hrules, h]; rfl) h (hnext h)

theorem run_operand_of_sign {free : Nat} (sign : Sign) {right : Expr}
    (h : (operand rules (.ofLevels rules free)).run final tokens = .ok right rest []) :
    (operand rules (.ofLevels rules (free + 1))).run final (sign.token :: tokens) =
      .ok (.unary sign.op right) rest [] := by
  have hrule : rules.operand sign.token.kind = some .unary := by
    rw [hrules, ← sign.kind_eq]
    cases sign.op <;> rfl
  have hop : UnaryOperator.ofKind? sign.token.kind = some sign.op :=
    UnaryOperator.ofKind?_eq_some_iff.2 sign.kind_eq
  have hnone : (Parser.many (Expression.turn rules (.ofLevels rules free) .unary)).run final rest =
      .ok [] rest [] := Parser.runMany_of_stop (Expression.turn_unary _ _)
  have hright : ((Layer.ofLevels rules (free + 1)).expr .unary).run final tokens =
      .ok right rest [] := run_expression h hnone
  apply (run_operand_of_rule hrule).trans
  apply (Parser.run_bind_of_ok (Advancing.run_accept_of_some hop final tokens)).trans
  rw [Reply.after_nil, Parser.run_bind_of_ok hright]
  rfl

theorem run_operand_of_factor (factor : Factor) {free : Nat} (hfree : factor.signs.length ≤ free)
    (hnext : factor.Precedes final rest) :
    (operand rules (.ofLevels rules free)).run final (factor.tokens ++ rest) =
      .ok factor.tree rest [] := by
  obtain ⟨signs, token, value, isAtom⟩ := factor
  induction signs generalizing free with
  | nil => exact run_operand_of_atom hrules isAtom hnext
  | cons sign signs ih =>
    cases free with
    | zero => exact absurd hfree (Nat.not_succ_le_zero _)
    | succ free => exact run_operand_of_sign hrules sign (ih (Nat.le_of_succ_le_succ hfree) hnext)

theorem run_operation_of_link (link : Link rules) {free : Nat}
    (hfree : link.right.signs.length ≤ free) (hnext : link.right.Precedes final tokens)
    {steps : List (BinaryOperator × Expr)}
    (hsteps : (Parser.many (Expression.turn rules (.ofLevels rules free) link.power)).run final
      tokens = .ok steps rest []) :
    (Expression.operation (.ofLevels rules (free + 1)) link.power).run final
        (link.tokens ++ tokens) =
      .ok (link.op, steps.foldl Expression.combine link.right.tree) rest [] := by
  have hop : BinaryOperator.ofKind? link.token.kind = some link.op :=
    BinaryOperator.ofKind?_eq_some_iff.2 link.kind_eq
  have hright : ((Layer.ofLevels rules (free + 1)).expr link.power).run final
      (link.right.tokens ++ tokens) =
        .ok (steps.foldl Expression.combine link.right.tree) rest [] :=
    run_expression (run_operand_of_factor hrules link.right hfree hnext) hsteps
  apply (Parser.run_bind_of_ok
    (Advancing.run_accept_of_some hop final (link.right.tokens ++ tokens))).trans
  rw [Reply.after_nil, Parser.run_bind_of_ok hright]
  rfl

/-- The loop over operators reads the links above its floor and extends a tree by them. -/
theorem run_links {links : List (Link rules)} {run : Nat}
    (h : Chain.Readable final rest run links) {floor : Power} {free : Nat}
    (hfree : Power.unary.rank - floor.rank + run ≤ free) :
    ∃ steps, (Parser.many (Expression.turn rules (.ofLevels rules free) floor)).run final
          (Chain.tokensOf links ++ rest) =
        .ok steps (Chain.tokensOf (links.dropWhile (Link.isAbove floor)) ++ rest) [] ∧
      ∀ left, steps.foldl Expression.combine left =
        Chain.extend left (links.takeWhile (Link.isAbove floor)) := by
  cases links with
  | nil =>
    have hstop : Expression.turn rules (.ofLevels rules free) floor (frontToken final rest).kind =
        .stop (pure ()) := by
      rw [Expression.turn, show rules.operator _ = none from h]
    exact ⟨[], Parser.runMany_of_stop hstop, fun left => (Chain.extend_nil left).symm⟩
  | cons link links =>
    obtain ⟨hsigns, hnext, hlinks⟩ := h
    have hfront : frontToken final (Chain.tokensOf (link :: links) ++ rest) = link.token := rfl
    by_cases habove : link.isAbove floor
    · have hrank : floor.rank < link.power.rank := of_decide_eq_true habove
      have hle := link.power.rank_le_unary
      obtain ⟨free, rfl⟩ : ∃ inner, free = inner + 1 := Nat.exists_eq_add_one.2 (by omega)
      obtain ⟨inner, hinner, htree⟩ :=
        run_links hlinks (by omega : Power.unary.rank - link.power.rank + run ≤ free)
      obtain ⟨outer, houter, htree'⟩ := run_links (hlinks.dropWhile (Link.isAbove link.power)) hfree
      have hmore : Expression.turn rules (.ofLevels rules (free + 1)) floor
          (frontToken final (Chain.tokensOf (link :: links) ++ rest)).kind =
            .more (Expression.operation (.ofLevels rules (free + 1)) link.power) := by
        rw [hfront, Expression.turn, link.operator_eq]
        exact if_pos hrank
      have hoperation := run_operation_of_link hrules link (by omega) hnext hinner
      rw [← List.append_assoc] at hoperation
      refine ⟨(link.op, inner.foldl Expression.combine link.right.tree) :: outer, ?_, ?_⟩
      · have hmany : Parser.runMany (Expression.turn rules (.ofLevels rules (free + 1)) floor) final
            (Chain.tokensOf (links.dropWhile (Link.isAbove link.power)) ++ rest) =
              .ok outer (Chain.tokensOf ((links.dropWhile (Link.isAbove link.power)).dropWhile
                (Link.isAbove floor)) ++ rest) [] := houter
        apply (Parser.runMany_of_ok hmore hoperation).trans
        rw [hmany, Chain.dropWhile_dropWhile habove]
        rfl
      · intro left
        rw [Chain.extend_takeWhile left habove, ← htree, ← htree']
        rfl
    · have hrank : ¬ floor.rank < link.power.rank := fun hlt =>
        habove (decide_eq_true hlt)
      have hstop : Expression.turn rules (.ofLevels rules free) floor
          (frontToken final (Chain.tokensOf (link :: links) ++ rest)).kind = .stop (pure ()) := by
        rw [hfront, Expression.turn, link.operator_eq]
        exact if_neg hrank
      rw [List.dropWhile_cons_of_neg habove, List.takeWhile_cons_of_neg habove]
      exact ⟨[], Parser.runMany_of_stop hstop, fun left => (Chain.extend_nil left).symm⟩
termination_by links.length
decreasing_by
  · subst_vars
    exact Nat.lt_succ_self _
  · subst_vars
    exact Nat.lt_succ_of_le (List.dropWhile_suffix _).length_le

end runs

namespace Chain

variable {rules : Rules} {final : Position} {rest : List Token}

theorem precedes_tokensOf {factor : Factor} {links : List (Link rules)}
    (h : links = [] → factor.Precedes final rest) :
    factor.Precedes final (tokensOf links ++ rest) := by
  cases links with
  | nil => exact h rfl
  | cons next links =>
    intro _
    have hop : (frontToken final (tokensOf (next :: links) ++ rest)).kind = next.op.kind :=
      next.kind_eq.symm
    rw [hop]
    cases next.op <;> decide

theorem readable (hrest : rules.operator (frontToken final rest).kind = none)
    {links : List (Link rules)} (hlast : ∀ link ∈ links.getLast?, link.right.Precedes final rest)
    {run : Nat} (hrun : ∀ link ∈ links, link.right.signs.length ≤ run) :
    Readable final rest run links := by
  induction links with
  | nil => exact hrest
  | cons link links ih =>
    obtain ⟨hlink, hlinks⟩ := List.forall_mem_cons.1 hrun
    refine ⟨hlink, precedes_tokensOf ?_, ih (fun other hother => ?_) hlinks⟩
    · rintro rfl
      exact hlast link rfl
    · apply hlast other
      rw [List.getLast?_cons, show links.getLast? = some other from hother]
      rfl

theorem length_signs_first_le (chain : Chain rules) :
    chain.first.signs.length ≤ chain.longestRun := by
  obtain ⟨first, links⟩ := chain
  induction links with
  | nil => exact Nat.le_refl _
  | cons link links ih => exact Nat.le_trans ih (Nat.le_max_right _ _)

theorem length_signs_le (chain : Chain rules) :
    ∀ link ∈ chain.links, link.right.signs.length ≤ chain.longestRun := by
  obtain ⟨first, links⟩ := chain
  induction links with
  | nil => exact List.forall_mem_nil _
  | cons link links ih =>
    intro other hother
    rcases List.mem_cons.1 hother with rfl | hother
    · exact Nat.le_max_left _ _
    · exact Nat.le_trans (ih other hother) (Nat.le_max_right _ _)

theorem tokens_above_append (floor : Power) (chain : Chain rules) :
    (chain.above floor).tokens ++ tokensOf (chain.links.dropWhile (Link.isAbove floor)) =
      chain.tokens := by
  simp only [tokens, above, tokensOf, List.append_assoc]
  rw [← List.flatMap_append, List.takeWhile_append_dropWhile]

end Chain

/-- An expression takes the operators above its floor and what is between them, and gives the tree
whose root is the last of those that bind least. -/
theorem Session.parseExpression_chain {session : Session} {chain : Chain session.rules}
    {rest : List Token} (hrules : session.rules.operand = Rules.standard.operand)
    (hremaining : session.remaining = chain.tokens ++ rest)
    (hend : session.rules.operator (frontToken session.final rest).kind = none)
    (hcall : chain.last.Precedes session.final rest) (floor : Power)
    (hdepth : session.depth + (6 + chain.longestRun) ≤ nestingLimit) :
    session.parseExpression floor =
      (.ok (chain.above floor).tree,
        { session with cursor := session.cursor + (chain.above floor).tokens.length }) := by
  obtain ⟨free, hfree⟩ : ∃ free, nestingLimit - session.depth = free + 1 :=
    Nat.exists_eq_add_one.2 (by omega)
  have henough : Power.unary.rank - floor.rank + chain.longestRun ≤ free := by
    have hle : Power.unary.rank - floor.rank ≤ 5 := Nat.sub_le _ _
    omega
  have hlinks : Chain.Readable session.final rest chain.longestRun chain.links := by
    apply Chain.readable hend
    · intro link hlink
      rw [Chain.last, hlink] at hcall
      exact hcall
    · exact chain.length_signs_le
  have hfirst : chain.first.Precedes session.final (Chain.tokensOf chain.links ++ rest) := by
    apply Chain.precedes_tokensOf
    intro hnil
    rw [Chain.last, hnil] at hcall
    exact hcall
  obtain ⟨steps, hsteps, htree⟩ := run_links hrules hlinks henough
  have hoperand := run_operand_of_factor hrules chain.first
    (Nat.le_trans chain.length_signs_first_le (by omega : chain.longestRun ≤ free)) hfirst
  have hrun : (session.layer.expr floor).run session.final session.remaining =
      .ok (chain.above floor).tree
        (Chain.tokensOf (chain.links.dropWhile (Link.isAbove floor)) ++ rest) [] := by
    rw [layer, hfree, hremaining, Chain.tokens, List.append_assoc]
    exact (run_expression hoperand hsteps).trans (by rw [htree]; rfl)
  have hlength : session.remaining.length -
      (Chain.tokensOf (chain.links.dropWhile (Link.isAbove floor)) ++ rest).length =
        (chain.above floor).tokens.length := by
    rw [hremaining, ← chain.tokens_above_append floor]
    simp only [List.length_append]
    omega
  rw [parseExpression, run, hrun]
  exact congrArg (fun count => (_, { session with cursor := session.cursor + count })) hlength

/-- Here `*` binds less than `+`, and seven levels are left. -/
theorem Session.parseExpression_chain_of_swapped_powers :
    let rules := (Rules.standard.setOperator .plus .multiplicative).setOperator .star .additive
    let session : Session := ⟨tokenize "1 + -x * 2 + y)" "shell", "shell", 0, rules, 121⟩
    let one : Expr := .number ⟨false, 1023 <<< 52, by decide⟩
    let two : Expr := .number ⟨false, 1024 <<< 52, by decide⟩
    let sum : Expr := .binary one .plus (.unary .negate (.identifier "x"))
    session.parseExpression .lowest =
        (.ok (.binary sum .multiply (.binary two .plus (.identifier "y"))),
          { session with cursor := 8 }) ∧
      session.parseExpression .additive = (.ok sum, { session with cursor := 4 }) := by
  intro rules session one two sum
  let first : Factor :=
    ⟨[], ⟨.number, "1", .between "shell" 0 1⟩, one,
      .literal (.number rfl (by decide +kernel) (by decide))⟩
  let plus : Link session.rules :=
    ⟨.plus, ⟨.plus, "+", .between "shell" 2 3⟩, .multiplicative,
      ⟨[⟨.negate, ⟨.minus, "-", .between "shell" 4 5⟩, rfl⟩],
        ⟨.identifier, "x", .between "shell" 5 6⟩, .identifier "x", .identifier rfl⟩, rfl, rfl⟩
  let times : Link session.rules :=
    ⟨.multiply, ⟨.star, "*", .between "shell" 7 8⟩, .additive,
      ⟨[], ⟨.number, "2", .between "shell" 9 10⟩, two,
        .literal (.number rfl (by decide +kernel) (by decide))⟩, rfl, rfl⟩
  let further : Link session.rules :=
    ⟨.plus, ⟨.plus, "+", .between "shell" 11 12⟩, .multiplicative,
      ⟨[], ⟨.identifier, "y", .between "shell" 13 14⟩, .identifier "y", .identifier rfl⟩, rfl, rfl⟩
  let chain : Chain session.rules := ⟨first, [plus, times, further]⟩
  have hremaining : session.remaining = chain.tokens ++ session.tokens.drop 8 := by decide +kernel
  have hend : session.rules.operator
      (frontToken session.final (session.tokens.drop 8)).kind = none := by decide +kernel
  have hcall : chain.last.Precedes session.final (session.tokens.drop 8) := by
    intro _
    decide +kernel
  have hdepth : session.depth + (6 + chain.longestRun) ≤ nestingLimit := by decide
  have hlowest := parseExpression_chain rfl hremaining hend hcall .lowest hdepth
  have hadditive := parseExpression_chain rfl hremaining hend hcall .additive hdepth
  have htree : (chain.above .lowest).tree =
      .binary sum .multiply (.binary two .plus (.identifier "y")) := by
    have hsplit : Split.IsWeakest ⟨[plus], times, [further]⟩ :=
      ⟨List.forall_mem_singleton.2 (by decide), List.forall_mem_singleton.2 (by decide)⟩
    apply (Chain.extend_links first.tree hsplit).trans
    rw [Chain.extend_singleton, Chain.extend_singleton]
    rfl
  have htree' : (chain.above .additive).tree = sum := Chain.extend_singleton one plus
  rw [htree] at hlowest
  rw [htree'] at hadditive
  exact ⟨hlowest, hadditive⟩

end ShellFrontend
