import ShellFrontend.Proofs.Climb
import ShellFrontend.Proofs.Yields

/-! # What is parsed is derived

Whatever a parser of the grammar reads is a phrase with a derivation, of the tree that the
parser gives and within the levels that were free.
-/

set_option autoImplicit false

namespace ShellFrontend

open ShellFrontend.Parser (Yields)

/-- The tier of the operands between operators above a floor. -/
def Power.tier : Power → Nat
  | lowest => 0
  | equality => 1
  | relational => 2
  | additive => 3
  | multiplicative | unary => 4

theorem Power.tier_le_rank (power : Power) : power.tier ≤ power.rank := by
  cases power <;> decide

theorem BinaryOperator.tier_power (op : BinaryOperator) : op.power.tier = op.tier + 1 := by
  cases op <;> rfl

namespace Derives

variable {levels : Nat} {phrase : List Token} {next : Kind} {expr : Expr}

private def InTightest : (symbol : Symbol) → Nat → List Token → Kind → symbol.Tree → Prop
  | .tier index, levels, phrase, next, tree => index = 4 → Derives .unary levels phrase next tree
  | _, _, _, _, _ => True

theorem unary_of_tightest (h : Derives (.tier 4) levels phrase next expr) :
    Derives .unary levels phrase next expr := by
  have hall : ∀ {symbol tree}, Derives symbol levels phrase next tree →
      InTightest symbol levels phrase next tree := by
    intro symbol tree h
    cases h with
    | tighter hindex _ =>
      rintro rfl
      exact absurd hindex (by decide)
    | @binary op _ _ _ _ _ _ _ _ _ _ _ =>
      intro htier
      cases op <;> cases htier
    | tightest h => exact fun _ => h
    | _ => trivial
  exact hall h rfl

end Derives

/-- The nested parsers of a layer find derivations with fewer levels than are free. -/
structure Layer.Sound (layer : Layer) (free : Nat) : Prop where
  expr : ∀ floor, (layer.expr floor).Yields fun next phrase value =>
    operatorRank next ≤ floor.rank ∧
      ∃ levels, levels + 1 ≤ free ∧ Derives (.tier floor.tier) levels phrase next value
  block : layer.block.Yields fun next phrase body => DerivesWithin .block free phrase next body

/-- Items with a comma between two; what is known of an item depends on what follows it. -/
inductive Separated {α : Type} (found : Kind → List Token → α → Prop) :
    List Token → List α → Prop
  | last {phrase : List Token} {value : α} (h : found .closeParen phrase value) :
      Separated found phrase [value]
  | more {comma : Token} {phrase phrase' : List Token} {value : α} {values : List α}
      (h : found .comma phrase value) (hcomma : comma.kind = .comma)
      (tail : Separated found phrase' values) :
      Separated found (phrase ++ comma :: phrase') (value :: values)

namespace CommaList

variable {α : Type} {item : Advancing α} {found : Kind → List Token → α → Prop}

/-- The items of a list behind its first, up to the closing parenthesis. -/
private def Continues (found : Kind → List Token → α → Prop) (phrase : List Token)
    (values : List α) : Prop :=
  ∃ closing : Token, closing.kind = .closeParen ∧ ((phrase = [closing] ∧ values = []) ∨
    ∃ comma more, comma.kind = .comma ∧ phrase = comma :: more ++ [closing] ∧
      Separated found more values)

private theorem Continues.cons {next : Kind} {first second : List Token} {value : α}
    {values : List α} (h : Continues found second values)
    (hfirst : found (headKind next second) first value) :
    ∃ phrase closing, closing.kind = .closeParen ∧ first ++ second = phrase ++ [closing] ∧
      Separated found phrase (value :: values) := by
  obtain ⟨closing, hclosing, ⟨rfl, rfl⟩ | ⟨comma, more, hcomma, rfl, hmore⟩⟩ := h
  · have hlast : found .closeParen first value := hclosing ▸ hfirst
    exact ⟨first, closing, hclosing, rfl, .last hlast⟩
  · have hcont : found .comma first value := hcomma ▸ hfirst
    exact ⟨first ++ comma :: more, closing, hclosing, by simp, .more hcont hcomma hmore⟩

theorem items_yields (what : String) (h : item.toParser.Yields found) :
    (items what item).Yields fun _ phrase values => ∃ more closing, closing.kind = .closeParen ∧
      phrase = more ++ [closing] ∧ Separated found more values := by
  have hmany : (Parser.many (turn what item)).Yields fun _ phrase values =>
      Continues found phrase values := by
    refine Yields.many (fun {kind last} hturn => ?_) (fun {kind turn'} hturn => ?_)
    · unfold turn at hturn
      split at hturn <;> cases hturn
      exact Yields.skip fun hkind _ => ⟨_, hkind, .inl ⟨rfl, rfl⟩⟩
    · unfold turn at hturn
      split at hturn <;> cases hturn
      refine Yields.token_bind fun {comma} hcomma => Yields.select fun kind => ?_
      have hitem : item.toParser.Yields fun next phrase value => headKind next phrase = kind →
          headKind next (comma :: phrase) = .comma → ∀ {next' second values},
            headKind next' second = next → Continues found second values →
              Continues found (comma :: phrase ++ second) (value :: values) := by
        apply h.mono
        rintro next phrase value hfound - - next' second values rfl hsecond
        obtain ⟨more, closing, hclosing, hphrase, hmore⟩ := hsecond.cons hfound
        exact ⟨closing, hclosing, .inr ⟨comma, more, hcomma, by simp [hphrase], hmore⟩⟩
      split
      · exact Yields.failing _
      · exact hitem
  refine Yields.bind h fun {kind first value} hfound => Yields.bind hmany ?_
  rintro kind' second values hsecond
  refine Yields.pure fun next hnext hkind => ?_
  rw [List.append_nil] at hkind ⊢
  obtain rfl : next = kind' := hnext
  exact hsecond.cons (hkind ▸ hfound)

/-- A list of items, or of none, with its parentheses. -/
def Encloses (found : Kind → List Token → α → Prop) (phrase : List Token)
    (values : List α) : Prop :=
  ∃ opening closing : Token, opening.kind = .openParen ∧ closing.kind = .closeParen ∧
    ((phrase = [opening, closing] ∧ values = []) ∨
      ∃ more, phrase = opening :: more ++ [closing] ∧ Separated found more values)

theorem commaList_yields (what : String) (h : item.toParser.Yields found) :
    (commaList what item).Yields fun _ phrase values => Encloses found phrase values := by
  refine Yields.token_bind fun {opening} hopening => Yields.select fun kind => ?_
  split
  · refine Yields.skip_bind fun {closing} hclosing => Yields.pure fun next _ => ?_
    exact ⟨opening, closing, hopening, hclosing, .inl ⟨rfl, rfl⟩⟩
  · apply (items_yields what h).mono
    rintro next _ values ⟨more, closing, hclosing, rfl, hmore⟩ -
    exact ⟨opening, closing, hopening, hclosing, .inr ⟨more, rfl, hmore⟩⟩

end CommaList

/-- What is found of a name in a list of parameters. -/
def Parameters.IsName (_ : Kind) (phrase : List Token) (name : Token) : Prop :=
  phrase = [name] ∧ name.kind = .identifier

theorem Names.of_separated {phrase values : List Token}
    (h : Separated Parameters.IsName phrase values) : Names phrase (values.map (·.text)) := by
  induction h with
  | last h =>
    obtain ⟨rfl, hname⟩ := h
    exact .last hname
  | more h hcomma _ ih =>
    obtain ⟨rfl, hname⟩ := h
    exact .more hname hcomma ih

theorem Parameters.of_encloses {phrase values : List Token}
    (h : CommaList.Encloses Parameters.IsName phrase values) :
    Parameters phrase (values.map (·.text)) := by
  obtain ⟨opening, closing, hopening, hclosing, ⟨rfl, rfl⟩ | ⟨more, rfl, hmore⟩⟩ := h
  · exact .none hopening hclosing
  · exact .some hopening (Names.of_separated hmore) hclosing

namespace Derives

/-- What is found of an argument of a call, within the free levels. -/
def IsArgument (free : Nat) (next : Kind) (phrase : List Token) (value : Expr) : Prop :=
  ∃ levels, levels + 1 ≤ free ∧ Derives (.tier 0) levels phrase next value

variable {free : Nat} {phrase : List Token} {values : List Expr}

theorem of_separated (h : Separated (IsArgument free) phrase values) :
    DerivesWithin .arguments free phrase .closeParen values := by
  induction h with
  | last h =>
    obtain ⟨levels, hlevels, hvalue⟩ := h
    exact ⟨levels + 1, hlevels, .lastArgument hvalue⟩
  | more h hcomma _ ih =>
    obtain ⟨levels, hlevels, hvalue⟩ := h
    obtain ⟨levels', hlevels', htail⟩ := ih
    exact ⟨max (levels + 1) levels', Nat.max_le.2 ⟨hlevels, hlevels'⟩,
      .argument hvalue hcomma htail⟩

theorem call_of_encloses {name : Token} {next : Kind} (hname : name.kind = .identifier)
    (h : CommaList.Encloses (IsArgument free) phrase values) :
    DerivesWithin .operand free (name :: phrase) next (.call name.text values) := by
  obtain ⟨opening, closing, hopening, hclosing, ⟨rfl, rfl⟩ | ⟨more, rfl, hmore⟩⟩ := h
  · exact ⟨0, Nat.zero_le _, .call hname hopening hclosing⟩
  · obtain ⟨levels, hlevels, harguments⟩ := of_separated hmore
    exact ⟨levels, hlevels, .callWith hname hopening harguments hclosing⟩

end Derives

theorem Literal.of_literal? {token : Token} {value : Expr}
    (h : Operand.literal? token = some value) : Literal token value := by
  unfold Operand.literal? at h
  split at h
  · rename_i hkind
    split at h
    · split at h
      · cases h
        exact .number hkind ‹_› ‹_›
      · cases h
    · cases h
  · cases h
    exact .string ‹_›
  · cases h
    exact .command ‹_›
  · cases h
    exact .yes ‹_›
  · cases h
    exact .no ‹_›
  · cases h

namespace Operand

variable {layer : Layer} {free : Nat}

theorem literal_yields : literal.Yields fun next phrase value =>
    DerivesWithin .operand free phrase next value :=
  Yields.accept fun hvalue => ⟨0, Nat.zero_le _, .literal (.of_literal? hvalue)⟩

theorem identifier_yields (h : layer.Sound free) : (identifier layer).Yields
    fun next phrase value => DerivesWithin .operand free phrase next value := by
  refine Yields.token_bind fun {name} hname => Yields.select fun kind => ?_
  split
  · have hargument := (h.expr .lowest).mono fun hvalue => hvalue.2
    refine Yields.returning ((CommaList.commaList_yields _ hargument).mono ?_)
    intro next phrase values hlist _
    exact Derives.call_of_encloses hname hlist
  · rename_i hkind
    refine Yields.pure fun next hnext => ⟨0, Nat.zero_le _, .identifier hname ?_⟩
    rintro rfl
    exact hkind hnext.symm

theorem unary_yields (h : layer.Sound free) : (unary layer).Yields
    fun next phrase value => DerivesWithin .unary free phrase next value := by
  refine Yields.accept_bind fun {token op} hop => Yields.returning ((h.expr .unary).mono ?_)
  rintro next phrase value ⟨-, levels, hlevels, hvalue⟩
  exact ⟨levels + 1, hlevels,
    .unary (UnaryOperator.ofKind?_eq_some_iff.1 hop) hvalue.unary_of_tightest⟩

theorem grouping_yields (h : layer.Sound free) : (grouping layer).Yields
    fun next phrase value => DerivesWithin .operand free phrase next value := by
  refine Yields.token_bind fun {opening} hopening => Yields.bind (h.expr .lowest) ?_
  rintro kind inner value ⟨-, levels, hlevels, hvalue⟩
  refine Yields.skip_bind fun {closing} hclosing => Yields.pure fun next hkind => ?_
  have hinner : Derives (.tier 0) levels inner .closeParen value := by
    rwa [← hclosing, show closing.kind = kind from hkind]
  exact ⟨levels + 1, hlevels, .grouping hopening hinner hclosing⟩

theorem elseBlock_yields (h : layer.Sound free) : (elseBlock layer).Yields
    fun next phrase other => ∃ body, other = some body ∧ DerivesWithin .block free phrase next body :=
  Yields.returning (h.block.mono fun hbody => ⟨_, rfl, hbody⟩)

theorem alternative_yields (h : layer.Sound free) : (alternative layer).Yields
    fun next phrase other => DerivesWithin .alternative free phrase next other := by
  intro final tokens other rest started hrun
  rcases alternative_cases final tokens with
    ⟨lineBreak, word, tail, rfl, hbreak, hword⟩ | ⟨word, tail, rfl, hword⟩ | ⟨hnext, hfront⟩
  · rw [run_alternative_of_lineBreak hbreak hword] at hrun
    obtain ⟨phrase, rfl, body, rfl, levels, hlevels, hbody⟩ := elseBlock_yields h hrun
    exact ⟨lineBreak :: word :: phrase, rfl, levels, hlevels,
      .alternativeOnNextLine hbreak hword hbody⟩
  · rw [run_alternative_of_elseWord hword] at hrun
    obtain ⟨phrase, rfl, body, rfl, levels, hlevels, hbody⟩ := elseBlock_yields h hrun
    exact ⟨word :: phrase, rfl, levels, hlevels, .alternative hword hbody⟩
  · rw [run_alternative_of_none hnext hfront] at hrun
    cases hrun
    exact ⟨[], rfl, 0, Nat.zero_le _, .noAlternative⟩

theorem conditional_yields (h : layer.Sound free) : (conditional layer).Yields
    fun next phrase value => DerivesWithin .operand free phrase next value := by
  refine Yields.token_bind fun {word} hword => Yields.accept_bind fun {opening value} haccept => ?_
  have hopening : opening.kind = .openParen := by
    split at haccept
    · assumption
    · cases haccept
  apply Yields.bind (h.expr .lowest)
  rintro kind phrase condition ⟨-, levels, hlevels, hcondition⟩
  refine Yields.skip_bind fun {closing} hclosing => Yields.bind h.block ?_
  rintro kind' phrase' consequence ⟨levels', hlevels', hconsequence⟩
  refine Yields.returning ((alternative_yields h).mono ?_)
  rintro next phrase'' other ⟨levels'', hlevels'', hother⟩ hkind' hkind
  have hcondition' : Derives (.tier 0) levels phrase .closeParen condition := by
    rwa [← hclosing, show closing.kind = kind from hkind]
  subst hkind'
  refine ⟨max (levels + 1) (max levels' levels''),
    Nat.max_le.2 ⟨hlevels, Nat.max_le.2 ⟨hlevels', hlevels''⟩⟩, ?_⟩
  have hall := Derives.conditional hword hopening hcondition' hclosing hconsequence hother
  simpa using hall

theorem function_yields (h : layer.Sound free) : (function layer).Yields
    fun next phrase value => DerivesWithin .operand free phrase next value := by
  have hname : (Advancing.token .identifier).Yields Parameters.IsName :=
    Yields.token fun hkind => ⟨rfl, hkind⟩
  refine Yields.token_bind fun {word} hword =>
    Yields.bind (CommaList.commaList_yields "parameter list" hname) ?_
  intro kind phrase parameters hlist
  refine Yields.returning (h.block.mono ?_)
  rintro next phrase' body ⟨levels, hlevels, hbody⟩ -
  exact ⟨levels, hlevels, .function hword (.of_encloses hlist) hbody⟩

end Operand

variable {layer : Layer} {free : Nat}

theorem operand_yields (h : layer.Sound free) : (operand .standard layer).Yields
    fun next phrase value => DerivesWithin .unary free phrase next value := by
  have hoperand : ∀ {next phrase value}, DerivesWithin .operand free phrase next value →
      DerivesWithin .unary free phrase next value := by
    rintro next phrase value ⟨levels, hlevels, hvalue⟩
    exact ⟨levels, hlevels, .operand hvalue⟩
  refine Yields.selecting fun kind => ?_
  split
  · rename_i rule _
    cases rule with
    | literal => exact Operand.literal_yields.mono fun hvalue _ => hoperand hvalue
    | identifier => exact (Operand.identifier_yields h).mono fun hvalue _ => hoperand hvalue
    | unary => exact (Operand.unary_yields h).mono fun hvalue _ => hvalue
    | grouping => exact (Operand.grouping_yields h).mono fun hvalue _ => hoperand hvalue
    | conditional => exact (Operand.conditional_yields h).mono fun hvalue _ => hoperand hvalue
    | function => exact (Operand.function_yields h).mono fun hvalue _ => hoperand hvalue
  · exact Yields.failing _

namespace Expression

theorem operation_yields (h : layer.Sound free) (power : Power) : (operation layer power).Yields
    fun next phrase step => operatorRank next ≤ power.rank ∧ ∃ token phrase' levels,
      phrase = token :: phrase' ∧ step.1.kind = token.kind ∧ levels + 1 ≤ free ∧
        Derives (.tier power.tier) levels phrase' next step.2 := by
  refine Yields.accept_bind fun {token op} hop => Yields.returning ((h.expr power).mono ?_)
  rintro next phrase value ⟨hrank, levels, hlevels, hvalue⟩
  exact ⟨hrank, token, phrase, levels, rfl, BinaryOperator.ofKind?_eq_some_iff.1 hop, hlevels, hvalue⟩

/-- An operator with its right operand, behind a tree that no stronger operator follows. -/
theorem derives_combine {index levels levels' : Nat} {read phrase : List Token} {token : Token}
    {next : Kind} {op : BinaryOperator} {left right : Expr}
    (hleft : Derives (.tier index) levels read token.kind left) (hindex : index ≤ 4)
    (hrank : operatorRank token.kind ≤ index + 1) (hop : op.kind = token.kind)
    (hright : Derives (.tier op.power.tier) levels' phrase next right) :
    Derives (.tier op.tier) (max levels (levels' + 1)) (read ++ token :: phrase) next
      (combine left (op, right)) := by
  rw [← hop, operatorRank_kind] at hrank
  rw [op.tier_power] at hright
  exact .binary (hleft.loosen hindex (by omega)) hop hright

/-- What the loop makes of a tree that stands on a tier of which no stronger operator follows. -/
def Extends (free : Nat) (floor : Power) (next : Kind) (phrase : List Token)
    (steps : List (BinaryOperator × Expr)) : Prop :=
  operatorRank next ≤ floor.rank ∧ ∀ {index levels read left}, index ≤ 4 → floor.tier ≤ index →
    operatorRank (headKind next phrase) ≤ index + 1 → levels ≤ free →
    Derives (.tier index) levels read (headKind next phrase) left →
      DerivesWithin (.tier floor.tier) free (read ++ phrase) next (steps.foldl combine left)

theorem Extends.nil {floor : Power} {next : Kind} (h : operatorRank next ≤ floor.rank) :
    Extends free floor next [] [] := by
  refine ⟨h, fun {index levels read left} hindex hfloor _ hlevels hleft => ?_⟩
  rw [List.append_nil]
  exact ⟨levels, hlevels, hleft.loosen hindex hfloor⟩

theorem Extends.cons {floor : Power} {next : Kind} {token : Token} {phrase second : List Token}
    {levels' : Nat} {op : BinaryOperator} {right : Expr} {steps : List (BinaryOperator × Expr)}
    (h : Extends free floor next second steps) (hop : op.kind = token.kind)
    (hfloor : floor.tier ≤ op.tier) (hrank : operatorRank (headKind next second) ≤ op.power.rank)
    (hlevels : levels' + 1 ≤ free)
    (hright : Derives (.tier op.power.tier) levels' phrase (headKind next second) right) :
    Extends free floor next (token :: phrase ++ second) ((op, right) :: steps) := by
  obtain ⟨hnext, hsteps⟩ := h
  refine ⟨hnext, fun {index levels read left} hindex _ hhead hle hleft => ?_⟩
  rw [op.rank_power] at hrank
  have htree := derives_combine hleft hindex hhead hop hright
  have hall := hsteps (Nat.le_of_lt op.tier_lt) hfloor hrank (Nat.max_le.2 ⟨hle, hlevels⟩) htree
  rwa [List.append_assoc] at hall

theorem turn_eq_stop {floor : Power} {kind : Kind} {last : Parser Unit}
    (h : turn .standard layer floor kind = .stop last) :
    last = pure () ∧ operatorRank kind ≤ floor.rank := by
  unfold turn at h
  unfold operatorRank
  cases hpower : Rules.standard.operator kind with
  | none =>
    rw [hpower] at h
    cases h
    exact ⟨rfl, Nat.zero_le _⟩
  | some power =>
    rw [hpower] at h
    dsimp only at h
    split at h
    · cases h
    · cases h
      exact ⟨rfl, Nat.not_lt.1 ‹_›⟩

theorem turn_eq_more {floor : Power} {kind : Kind} {item : Advancing (BinaryOperator × Expr)}
    (h : turn .standard layer floor kind = .more item) :
    ∃ power, Rules.standard.operator kind = some power ∧ floor.rank < power.rank ∧
      item = operation layer power := by
  unfold turn at h
  split at h
  · split at h
    · cases h
      exact ⟨_, ‹_›, ‹_›, rfl⟩
    · cases h
  · cases h

/-- The operator that a turn of the loop reads stands above the floor. -/
theorem power_eq_of_turn {floor power : Power} {op : BinaryOperator}
    (h : Rules.standard.operator op.kind = some power) (hlt : floor.rank < power.rank) :
    power = op.power ∧ floor.tier ≤ op.tier := by
  rw [op.operator_kind] at h
  obtain rfl := Option.some.inj h
  have hle := floor.tier_le_rank
  have hrank := op.rank_power
  exact ⟨rfl, by omega⟩

theorem many_yields (h : layer.Sound free) (floor : Power) :
    (Parser.many (turn .standard layer floor)).Yields (Extends free floor) := by
  refine Yields.many (fun {kind last} hturn => ?_) (fun {kind item} hturn => ?_)
  · obtain ⟨rfl, hrank⟩ := turn_eq_stop hturn
    refine Yields.pure fun next hkind => ?_
    obtain rfl : next = kind := hkind
    exact .nil hrank
  · obtain ⟨power, hpower, hlt, rfl⟩ := turn_eq_more hturn
    apply (operation_yields h power).mono
    rintro next _ ⟨op, right⟩ ⟨hrank, token, phrase, levels, rfl, hop, hlevels, hright⟩ hkind
    rintro next' second steps rfl hsteps
    have hkind : kind = op.kind := hkind.symm.trans hop.symm
    obtain ⟨rfl, hfloor⟩ := power_eq_of_turn (hkind ▸ hpower) hlt
    exact hsteps.cons hop hfloor hrank hlevels hright

end Expression

theorem expression_yields (h : layer.Sound free) (floor : Power) :
    (expression .standard layer floor).Yields fun next phrase value =>
      operatorRank next ≤ floor.rank ∧ DerivesWithin (.tier floor.tier) free phrase next value := by
  apply Yields.bind (operand_yields h)
  rintro kind first left ⟨levels, hlevels, hleft⟩
  refine Yields.returning ((Expression.many_yields h floor).mono ?_)
  rintro next phrase steps ⟨hrank, hsteps⟩ rfl
  refine ⟨hrank, hsteps (Nat.le_refl 4) ?_ (operatorRank_le _) hlevels (.tightest hleft)⟩
  cases floor <;> decide

namespace Statement

theorem ending_yields : ending.Yields fun next phrase _ => Ends next phrase := by
  intro final tokens value rest started hrun
  obtain ⟨-, ⟨stop, rfl, hstop⟩ | ⟨rfl, hopen⟩⟩ := ending_cases hrun
  · exact ⟨[stop], rfl, .terminator hstop⟩
  · exact ⟨[], rfl, .outside hopen⟩

theorem value_yields (h : layer.Sound free) (make : Expr → Stmt) :
    ((layer.expr .lowest).toParser >>= fun value => do
      ending
      pure (make value)).Yields fun next phrase stmt => ∃ value read stop levels,
        stmt = make value ∧ phrase = read ++ stop ∧ levels + 1 ≤ free ∧
          Derives (.tier 0) levels read (headKind next stop) value ∧ Ends next stop := by
  apply Yields.bind (h.expr .lowest)
  rintro kind read value ⟨-, levels, hlevels, hvalue⟩
  refine Yields.returning (ending_yields.mono ?_)
  rintro next stop _ hstop rfl
  exact ⟨value, read, stop, levels, rfl, rfl, hlevels, hvalue, hstop⟩

theorem binding_yields (h : layer.Sound free) : (binding layer).Yields
    fun next phrase stmt => DerivesWithin .statement free phrase next stmt := by
  refine Yields.token_bind fun {word} hword => Yields.token_bind fun {name} hname =>
    Yields.skip_bind fun {assign} hassign => (value_yields h (.binding name.text)).mono ?_
  rintro next _ _ ⟨value, read, stop, levels, rfl, rfl, hlevels, hvalue, hstop⟩
  exact ⟨levels + 1, hlevels, .binding hword hname hassign hvalue hstop⟩

theorem result_yields (h : layer.Sound free) : (result layer).Yields
    fun next phrase stmt => DerivesWithin .statement free phrase next stmt := by
  refine Yields.token_bind fun {word} hword => (value_yields h .result).mono ?_
  rintro next _ _ ⟨value, read, stop, levels, rfl, rfl, hlevels, hvalue, hstop⟩
  exact ⟨levels + 1, hlevels, .result hword hvalue hstop⟩

theorem expression_yields (h : layer.Sound free) : (expression layer).Yields
    fun next phrase stmt => DerivesWithin .statement free phrase next stmt := by
  apply (value_yields h .expression).mono
  rintro next _ _ ⟨value, read, stop, levels, rfl, rfl, hlevels, hvalue, hstop⟩
  exact ⟨levels + 1, hlevels, .expression hvalue hstop⟩

theorem block_yields (h : layer.Sound free) : (block layer).Yields
    fun next phrase stmt => DerivesWithin .statement free phrase next stmt := by
  refine Yields.returning (h.block.mono ?_)
  rintro next phrase body ⟨levels, hlevels, hbody⟩
  exact ⟨levels, hlevels, .blockStatement hbody⟩

end Statement

theorem statement_yields (h : layer.Sound free) : (statement .standard layer).Yields
    fun next phrase stmt => DerivesWithin .statement free phrase next stmt := by
  refine Yields.selecting fun kind => Yields.starting kind ?_
  split
  · rename_i rule _
    cases rule with
    | binding => exact (Statement.binding_yields h).mono fun hstmt _ => hstmt
    | result => exact (Statement.result_yields h).mono fun hstmt _ => hstmt
    | block => exact (Statement.block_yields h).mono fun hstmt _ => hstmt
  · exact (Statement.expression_yields h).mono fun hstmt _ => hstmt

def Block.Closes (free : Nat) (phrase : List Token) (entries : List (Option Stmt)) : Prop :=
  ∃ body closing, phrase = body ++ [closing] ∧ closing.kind = .closeBrace ∧
    DerivesWithin .body free body .closeBrace (entries.filterMap id)

theorem Block.many_yields (h : layer.Sound free) :
    (Parser.many (Block.turn .standard layer)).Yields fun _ phrase entries =>
      Block.Closes free phrase entries := by
  refine Yields.many (fun {kind last} hturn => ?_) (fun {kind item} hturn => ?_)
  · unfold Block.turn at hturn
    split at hturn <;> cases hturn
    · refine Yields.skip fun {closing next} hclosing _ => ?_
      exact ⟨[], closing, rfl, hclosing, 0, Nat.zero_le _, .emptyBody⟩
    · exact Yields.failing _
  · unfold Block.turn at hturn
    split at hturn <;> cases hturn
    · refine Yields.token_bind fun {stop} hstop => Yields.pure ?_
      rintro kind - next' _ entries - ⟨body, closing, rfl, hclosing, levels, hlevels, hbody⟩
      exact ⟨stop :: body, closing, rfl, hclosing, levels, hlevels, .emptyStatement hstop hbody⟩
    · refine Yields.returning ((statement_yields h).mono ?_)
      rintro next phrase stmt ⟨levels, hlevels, hstmt⟩ - next' _ entries rfl
        ⟨body, closing, rfl, hclosing, levels', hlevels', hbody⟩
      have hnext : headKind next' (body ++ [closing]) = headKind .closeBrace body := by
        cases body with
        | nil => exact hclosing
        | cons token body => rfl
      rw [hnext] at hstmt
      exact ⟨phrase ++ body, closing, (List.append_assoc ..).symm, hclosing, max levels levels',
        Nat.max_le.2 ⟨hlevels, hlevels'⟩, .statements hstmt hbody⟩

theorem bracedBlock_yields (h : layer.Sound free) : (bracedBlock .standard layer).Yields
    fun next phrase body => DerivesWithin .block (free + 1) phrase next body := by
  refine Yields.token_bind fun {opening} hopening =>
    Yields.returning ((Block.many_yields h).mono ?_)
  rintro next _ entries ⟨body, closing, rfl, hclosing, levels, hlevels, hbody⟩
  exact ⟨levels + 1, Nat.succ_le_succ hlevels, .block hopening hbody hclosing⟩

theorem Layer.ofLevels_sound (free : Nat) : (Layer.ofLevels .standard free).Sound free := by
  induction free with
  | zero =>
    constructor
    · intro floor
      exact Yields.failing fun _ => .tooDeep nestingLimit
    · exact Yields.failing fun _ => .tooDeep nestingLimit
  | succ free ih =>
    constructor
    · intro floor
      apply (expression_yields ih floor).mono
      rintro next phrase value ⟨hrank, levels, hlevels, hvalue⟩
      exact ⟨hrank, levels, Nat.succ_le_succ hlevels, hvalue⟩
    · exact bracedBlock_yields ih

end ShellFrontend
