import ShellFrontend.Proofs.Stops
import ShellFrontend.Proofs.Viability

/-! # What was read can be completed

Where a parser of the grammar fails for another reason than that no level is left, the tokens in
front begin a phrase of its nonterminal: each state in which a parser can fail has a completion.
-/

set_option autoImplicit false

namespace ShellFrontend

open ShellFrontend.Parser (Stops Yields)

/-- The nested parsers of a layer fail in what can be completed. -/
structure Layer.Viable (layer : Layer) : Prop where
  expr : ∀ floor, (layer.expr floor).Stops fun _ read => (Symbol.tier floor.tier).Viable read
  block : layer.block.Stops fun _ read => Symbol.block.Viable read

namespace CommaList

variable {α : Type} {item : Advancing α} {found : Kind → List Token → α → Prop}

/-- Tokens that begin a list of items. -/
def Begins (found : Kind → List Token → α → Prop) (read : List Token) : Prop :=
  ∃ phrase values, read <+: phrase ∧ Separated found phrase values

/-- Tokens that begin an item at the end of a list. -/
def BeginsLast (found : Kind → List Token → α → Prop) (read : List Token) : Prop :=
  ∃ phrase value, read <+: phrase ∧ found .closeParen phrase value

/-- What was read behind any item begins a list with it. -/
def Prolongs (found : Kind → List Token → α → Prop) (next : Kind) (second : List Token) : Prop :=
  ∀ ⦃first value⦄, found (headKind next second) first value → Begins found (first ++ second)

section Prolongs

variable {next : Kind} {comma : Token} {phrase second : List Token} {value : α}

theorem Prolongs.nil
    (hlast : ∀ {kind phrase value}, found kind phrase value → found .closeParen phrase value) :
    Prolongs found next [] := by
  intro first value hfirst
  rw [List.append_nil]
  exact ⟨first, [value], List.prefix_refl first, .last (hlast hfirst)⟩

theorem Prolongs.last (hcomma : comma.kind = .comma) (h : BeginsLast found second) :
    Prolongs found next (comma :: second) := by
  obtain ⟨phrase, value', hbegins, hphrase⟩ := h
  intro first value hfirst
  have hfirst : found .comma first value := hcomma ▸ hfirst
  refine ⟨_, _, ?_, .more hfirst hcomma (.last hphrase)⟩
  exact (List.prefix_append_right_inj first).2 ((List.prefix_cons_inj comma).2 hbegins)

/-- A comma and a whole item in front of what was read. -/
theorem Prolongs.cons (h : Prolongs found next second) (hcomma : comma.kind = .comma)
    (hphrase : found (headKind next second) phrase value) :
    Prolongs found next (comma :: phrase ++ second) := by
  obtain ⟨more, values, hbegins, hmore⟩ := h hphrase
  intro first value' hfirst
  have hfirst : found .comma first value' := hcomma ▸ hfirst
  refine ⟨_, _, ?_, .more hfirst hcomma hmore⟩
  exact (List.prefix_append_right_inj first).2 ((List.prefix_cons_inj comma).2 hbegins)

end Prolongs

section items

variable (what : String) (hyields : item.toParser.Yields found)
  (hstops : item.toParser.Stops fun _ read => BeginsLast found read)
  (hlast : ∀ {kind phrase value}, found kind phrase value → found .closeParen phrase value)
  (hnil : BeginsLast found [])

include hyields hstops hlast hnil

theorem items_stops : (items what item).Stops fun _ read => Begins found read := by
  have hmany : (Parser.many (turn what item)).Stops (Prolongs found) := by
    refine Stops.many (fun {kind last} hturn => ?_) (fun {kind item'} hturn => ?_)
      (fun {kind item'} hturn => ?_)
    · unfold turn at hturn
      split at hturn <;> cases hturn
      exact Stops.skip fun _ _ => .nil hlast
    · unfold turn at hturn
      split at hturn <;> cases hturn
      refine Stops.token_bind (fun _ _ => .nil hlast) fun {comma} hcomma =>
        Stops.select fun kind => ?_
      split
      · exact Stops.failing _ fun _ _ _ => .last hcomma hnil
      · exact hstops.mono fun hread _ _ => .last hcomma hread
    · unfold turn at hturn
      split at hturn <;> cases hturn
      refine Yields.token_bind fun {comma} hcomma => Yields.select fun kind => ?_
      split
      · exact Yields.failing _
      · apply hyields.mono
        rintro next phrase value hphrase - - next' second rfl hsecond
        exact hsecond.cons hcomma hphrase
  refine Stops.bind (hstops.mono ?_) hyields fun {kind first value} hfirst =>
    Stops.returning (hmany.mono ?_)
  · rintro kind read ⟨phrase, value, hbegins, hphrase⟩
    exact ⟨phrase, [value], hbegins, .last hphrase⟩
  · rintro kind' second hsecond rfl
    exact hsecond hfirst

theorem commaList_stops : (commaList what item).Stops fun _ read =>
    ∃ phrase values, read <+: phrase ∧ Encloses found phrase values := by
  have hempty : ∀ {opening : Token}, opening.kind = .openParen →
      Encloses found [opening, .sample .closeParen] [] := fun hopening =>
    ⟨_, _, hopening, rfl, .inl ⟨rfl, rfl⟩⟩
  refine Stops.token_bind (fun _ => ?_) fun {opening} hopening => Stops.select fun kind => ?_
  · exact ⟨[.sample .openParen, .sample .closeParen], [], List.nil_prefix, hempty rfl⟩
  · split
    · refine Stops.skip_bind (fun _ _ => ?_) fun _ => Stops.pure _
      exact ⟨_, _, List.prefix_append [opening] _, hempty hopening⟩
    · refine (items_stops what hyields hstops hlast hnil).mono ?_
      rintro next read ⟨more, values, hbegins, hmore⟩ -
      refine ⟨opening :: more ++ [.sample .closeParen], values, ?_, opening, .sample .closeParen,
        hopening, rfl, .inr ⟨more, rfl, hmore⟩⟩
      exact List.prefix_cons_inj opening |>.2 (hbegins.trans (List.prefix_append _ _))

end items

end CommaList

namespace Operand

variable {layer : Layer} {free : Nat}

theorem literal_stops : literal.Stops fun _ read => Symbol.operand.Viable read :=
  Stops.accept fun _ => operand_viable_nil

theorem identifier_stops (hsound : layer.Sound free) (h : layer.Viable) :
    (identifier layer).Stops fun _ read => Symbol.operand.Viable read := by
  refine Stops.token_bind (fun _ => operand_viable_nil) fun {name} hname =>
    Stops.select fun kind => ?_
  split
  · have hyields : (layer.expr .lowest).Yields fun kind phrase value =>
        ∃ free, Derives.IsArgument free kind phrase value :=
      (hsound.expr .lowest).mono fun hvalue => ⟨free, hvalue.2⟩
    have hstops : (layer.expr .lowest).Stops fun _ read => CommaList.BeginsLast
        (fun kind phrase value => ∃ free, Derives.IsArgument free kind phrase value) read := by
      refine (h.expr .lowest).mono fun {kind read} hread => ?_
      obtain ⟨phrase, levels, value, hbegins, hvalue⟩ := hread.behind (Symbol.admits_closeParen _)
      exact ⟨phrase, value, hbegins, levels + 1, levels, Nat.le_refl _, hvalue⟩
    refine Stops.returning ((CommaList.commaList_stops _ hyields hstops ?_ ?_).mono ?_)
    · rintro kind phrase value ⟨free, levels, hlevels, hvalue⟩
      exact ⟨free, levels, hlevels, hvalue.retarget (Symbol.admits_closeParen 0)⟩
    · exact ⟨_, _, List.nil_prefix, 1, 0, Nat.le_refl 1, derives_sampleTier _ (Nat.zero_le 4)⟩
    · rintro kind read ⟨phrase, values, hbegins, hlist⟩ -
      obtain ⟨levels, hcall⟩ := Derives.exists_call hname .terminator hlist
      exact .of_completion ((List.prefix_cons_inj name).2 hbegins) hcall
  · exact Stops.pure _

theorem unary_stops (h : layer.Viable) :
    (unary layer).Stops fun _ read => Symbol.unary.Viable read := by
  refine Stops.accept_bind (fun _ => unary_viable_nil) fun {token op} hop =>
    Stops.returning ((h.expr .unary).mono ?_)
  rintro kind read ⟨phrase, levels, next, value, hbegins, hvalue⟩
  exact .of_completion ((List.prefix_cons_inj token).2 hbegins)
    (.unary (UnaryOperator.ofKind?_eq_some_iff.1 hop) hvalue.unary_of_tightest)

theorem grouping_stops (hsound : layer.Sound free) (h : layer.Viable) :
    (grouping layer).Stops fun _ read => Symbol.operand.Viable read := by
  have hgroup : ∀ {opening : Token} {read}, opening.kind = .openParen →
      (Symbol.tier 0).Viable read → Symbol.operand.Viable (opening :: read) := by
    intro opening read hopening hread
    obtain ⟨phrase, levels, value, hbegins, hvalue⟩ := hread.behind (Symbol.admits_closeParen _)
    have hgrouping : Derives .operand (levels + 1)
        (opening :: phrase ++ [.sample .closeParen]) .terminator value :=
      .grouping hopening hvalue rfl
    refine .of_completion ?_ hgrouping
    exact (List.prefix_cons_inj opening).2 (hbegins.trans (List.prefix_append _ _))
  refine Stops.token_bind (fun _ => operand_viable_nil) fun {opening} hopening =>
    Stops.bind ((h.expr .lowest).mono (hgroup hopening)) (hsound.expr .lowest) ?_
  rintro kind first value ⟨-, levels, -, hvalue⟩
  refine Stops.skip_bind (fun _ _ => ?_) fun _ => Stops.pure _
  rw [List.append_nil]
  exact hgroup hopening (.of_derives hvalue)

theorem alternative_stops (h : layer.Viable) :
    (alternative layer).Stops fun _ read => Symbol.alternative.Viable read := by
  have helse : (elseBlock layer).Stops fun _ read => Symbol.block.Viable read :=
    Stops.returning h.block
  intro final tokens error rest started hrun hcause
  rcases alternative_cases final tokens with
    ⟨lineBreak, word, tail, rfl, hbreak, hword⟩ | ⟨word, tail, rfl, hword⟩ | ⟨hnext, hfront⟩
  · rw [run_alternative_of_lineBreak hbreak hword] at hrun
    obtain ⟨read, rfl, phrase, levels, next, body, hbegins, hbody⟩ := helse hrun hcause
    refine ⟨lineBreak :: word :: read, rfl,
      .of_completion ?_ (.alternativeOnNextLine hbreak hword hbody)⟩
    simpa using hbegins
  · rw [run_alternative_of_elseWord hword] at hrun
    obtain ⟨read, rfl, phrase, levels, next, body, hbegins, hbody⟩ := helse hrun hcause
    refine ⟨word :: read, rfl, .of_completion ?_ (.alternative hword hbody)⟩
    simpa using hbegins
  · rw [run_alternative_of_none hnext hfront] at hrun
    cases hrun

section conditional

variable {word opening closing : Token} {levels levels' : Nat} {phrase phrase' read : List Token}
  {next : Kind} {condition : Expr} {consequence : List Stmt}
  (hword : word.kind = .ifWord) (hopening : opening.kind = .openParen)

include hword hopening

theorem viable_alternative (hcondition : Derives (.tier 0) levels phrase .closeParen condition)
    (hclosing : closing.kind = .closeParen)
    (hconsequence : Derives .block levels' phrase' next consequence)
    (h : Symbol.alternative.Viable read) :
    Symbol.operand.Viable (word :: opening :: phrase ++ closing :: phrase' ++ read) := by
  obtain ⟨phrase'', levels'', next', other, hbegins, hother⟩ := h
  refine .of_completion ?_ (.conditional hword hopening hcondition hclosing
    (hconsequence.retarget trivial) hother)
  exact (List.prefix_append_right_inj _).2 hbegins

theorem viable_consequence (hcondition : Derives (.tier 0) levels phrase .closeParen condition)
    (hclosing : closing.kind = .closeParen) (h : Symbol.block.Viable read) :
    Symbol.operand.Viable (word :: opening :: phrase ++ closing :: read) := by
  obtain ⟨phrase', levels', next, consequence, hbegins, hconsequence⟩ := h
  have hother : Derives .alternative 0 [] .terminator none := .noAlternative
  refine (viable_alternative hword hopening hcondition hclosing hconsequence
    (.of_derives hother)).of_isPrefix ?_
  simpa [List.append_assoc] using hbegins

theorem viable_condition (h : (Symbol.tier 0).Viable read) :
    Symbol.operand.Viable (word :: opening :: read) := by
  obtain ⟨phrase, levels, condition, hbegins, hcondition⟩ := h.behind (Symbol.admits_closeParen 0)
  have hclosing : (Token.sample .closeParen).kind = .closeParen := rfl
  refine (viable_consequence hword hopening hcondition hclosing block_viable_nil).of_isPrefix ?_
  simpa using hbegins.trans (List.prefix_append _ _)

end conditional

theorem conditional_stops (hsound : layer.Sound free) (h : layer.Viable) :
    (conditional layer).Stops fun _ read => Symbol.operand.Viable read := by
  have hstart : ∀ {word : Token}, word.kind = .ifWord → Symbol.operand.Viable [word] := by
    intro word hword
    have hopening : (Token.sample .openParen).kind = .openParen := rfl
    exact (viable_condition hword hopening (tier_viable_nil (Nat.zero_le 4))).of_isPrefix
      (List.prefix_append [word] _)
  refine Stops.token_bind (fun _ => operand_viable_nil) fun {word} hword =>
    Stops.accept_bind (fun _ => hstart hword) fun {opening value} haccept => ?_
  have hopening : opening.kind = .openParen := by
    split at haccept
    · assumption
    · cases haccept
  refine Stops.bind ((h.expr .lowest).mono (viable_condition hword hopening))
    (hsound.expr .lowest) ?_
  rintro kind phrase condition ⟨-, levels, -, hcondition⟩
  have hcondition := hcondition.retarget (Symbol.admits_closeParen 0)
  refine Stops.skip_bind (fun _ _ => ?_) fun {closing} hclosing =>
    Stops.bind (h.block.mono fun hread _ => ?_) hsound.block ?_
  · rw [List.append_nil]
    exact viable_condition hword hopening (.of_derives hcondition)
  · exact viable_consequence hword hopening hcondition hclosing hread
  · rintro kind' phrase' consequence ⟨levels', -, hconsequence⟩
    refine Stops.returning ((alternative_stops h).mono fun hread _ _ => ?_)
    simpa using viable_alternative hword hopening hcondition hclosing hconsequence hread

theorem function_stops (h : layer.Viable) :
    (function layer).Stops fun _ read => Symbol.operand.Viable read := by
  have hname : (Advancing.token .identifier).Yields Parameters.IsName :=
    Yields.token fun hkind => ⟨rfl, hkind⟩
  have hsample : Parameters.IsName .closeParen [.sample .identifier] (.sample .identifier) :=
    ⟨rfl, rfl⟩
  have hnil : CommaList.BeginsLast Parameters.IsName [] := ⟨_, _, List.nil_prefix, hsample⟩
  have hstops : (Advancing.token .identifier).Stops
      fun _ read => CommaList.BeginsLast Parameters.IsName read := Stops.accept fun _ => hnil
  have hfunction : ∀ {word : Token} {phrase names read}, word.kind = .fnWord →
      Parameters phrase names → Symbol.block.Viable read →
        Symbol.operand.Viable (word :: phrase ++ read) := by
    rintro word phrase names read hword hparameters ⟨phrase', levels, next, body, hbegins, hbody⟩
    refine .of_completion ?_ (.function hword hparameters hbody)
    exact (List.prefix_append_right_inj _).2 hbegins
  refine Stops.token_bind (fun _ => operand_viable_nil) fun {word} hword =>
    Stops.bind ?_ (CommaList.commaList_yields "parameter list" hname) ?_
  · refine (CommaList.commaList_stops _ hname hstops id hnil).mono ?_
    rintro kind read ⟨phrase, names, hbegins, hlist⟩
    refine (hfunction hword (.of_encloses hlist) block_viable_nil).of_isPrefix ?_
    simpa using hbegins
  · intro kind phrase names hlist
    refine Stops.returning (h.block.mono fun hread _ => ?_)
    exact hfunction hword (.of_encloses hlist) hread

end Operand

variable {layer : Layer} {free : Nat}

theorem operand_stops (hsound : layer.Sound free) (h : layer.Viable) :
    (operand .standard layer).Stops fun _ read => Symbol.unary.Viable read := by
  have hoperand : ∀ {read}, Symbol.operand.Viable read → Symbol.unary.Viable read := by
    rintro read ⟨phrase, levels, next, value, hbegins, hvalue⟩
    exact .of_completion hbegins (.operand hvalue)
  refine Stops.selecting fun kind => ?_
  split
  · rename_i rule _
    cases rule with
    | literal => exact Operand.literal_stops.mono fun hread _ => hoperand hread
    | identifier => exact (Operand.identifier_stops hsound h).mono fun hread _ => hoperand hread
    | unary => exact (Operand.unary_stops h).mono fun hread _ => hread
    | grouping => exact (Operand.grouping_stops hsound h).mono fun hread _ => hoperand hread
    | conditional => exact (Operand.conditional_stops hsound h).mono fun hread _ => hoperand hread
    | function => exact (Operand.function_stops h).mono fun hread _ => hoperand hread
  · exact Stops.failing _ fun _ _ => unary_viable_nil

namespace Expression

/-- What was read behind any tree to which the loop may have come begins an expression with it. -/
def Prolongs (floor : Power) (next : Kind) (second : List Token) : Prop :=
  ∀ ⦃index levels read left⦄, index ≤ 4 → floor.tier ≤ index →
    operatorRank (headKind next second) ≤ index + 1 →
    Derives (.tier index) levels read (headKind next second) left →
      (Symbol.tier floor.tier).Viable (read ++ second)

theorem Prolongs.nil (floor : Power) (next : Kind) : Prolongs floor next [] := by
  intro index levels read left hindex hfloor _ hleft
  rw [List.append_nil]
  exact .of_derives (hleft.loosen hindex hfloor)

/-- An operator and the beginning of its right operand. -/
theorem Prolongs.operation {floor : Power} {next : Kind} {token : Token} {op : BinaryOperator}
    {second : List Token} (hop : op.kind = token.kind) (hfloor : floor.tier ≤ op.tier)
    (h : (Symbol.tier op.power.tier).Viable second) : Prolongs floor next (token :: second) := by
  intro index levels read left hindex _ hhead hleft
  obtain ⟨phrase, levels', next', right, hbegins, hright⟩ := h
  have htree := derives_combine hleft hindex hhead hop hright
  refine .of_completion ?_ (htree.loosen (Nat.le_of_lt op.tier_lt) hfloor)
  exact (List.prefix_append_right_inj read).2 ((List.prefix_cons_inj token).2 hbegins)

/-- A whole operation in front of what was read becomes part of the tree. -/
theorem Prolongs.cons {floor : Power} {next : Kind} {token : Token} {phrase second : List Token}
    {levels' : Nat} {op : BinaryOperator} {right : Expr} (h : Prolongs floor next second)
    (hop : op.kind = token.kind) (hfloor : floor.tier ≤ op.tier)
    (hrank : operatorRank (headKind next second) ≤ op.power.rank)
    (hright : Derives (.tier op.power.tier) levels' phrase (headKind next second) right) :
    Prolongs floor next (token :: phrase ++ second) := by
  intro index levels read left hindex _ hhead hleft
  rw [op.rank_power] at hrank
  have htree := derives_combine hleft hindex hhead hop hright
  have hall := h (Nat.le_of_lt op.tier_lt) hfloor hrank htree
  rwa [List.append_assoc] at hall

theorem operation_stops (h : layer.Viable) (power : Power) : (operation layer power).Stops
    fun _ read => read = [] ∨ ∃ token op second, read = token :: second ∧
      BinaryOperator.kind op = token.kind ∧ (Symbol.tier power.tier).Viable second := by
  refine Stops.accept_bind (fun _ => .inl rfl) fun {token op} hop =>
    Stops.returning ((h.expr power).mono fun hread => ?_)
  exact .inr ⟨token, op, _, rfl, BinaryOperator.ofKind?_eq_some_iff.1 hop, hread⟩

theorem many_stops (hsound : layer.Sound free) (h : layer.Viable) (floor : Power) :
    (Parser.many (turn .standard layer floor)).Stops (Prolongs floor) := by
  refine Stops.many (fun {kind last} hturn => ?_) (fun {kind item} hturn => ?_)
    (fun {kind item} hturn => ?_)
  · obtain ⟨rfl, -⟩ := turn_eq_stop hturn
    exact Stops.pure ()
  · obtain ⟨power, hpower, hlt, rfl⟩ := turn_eq_more hturn
    apply (operation_stops h power).mono
    rintro next read (rfl | ⟨token, op, second, rfl, hop, hsecond⟩) hkind
    · exact .nil floor next
    · have hkind : kind = op.kind := hkind.symm.trans hop.symm
      obtain ⟨rfl, hfloor⟩ := power_eq_of_turn (hkind ▸ hpower) hlt
      exact .operation hop hfloor hsecond
  · obtain ⟨power, hpower, hlt, rfl⟩ := turn_eq_more hturn
    apply (operation_yields hsound power).mono
    rintro next _ ⟨op, right⟩ ⟨hrank, token, phrase, levels, rfl, hop, -, hright⟩ hkind
    rintro next' second rfl hsecond
    have hkind : kind = op.kind := hkind.symm.trans hop.symm
    obtain ⟨rfl, hfloor⟩ := power_eq_of_turn (hkind ▸ hpower) hlt
    exact hsecond.cons hop hfloor hrank hright

end Expression

theorem expression_stops (hsound : layer.Sound free) (h : layer.Viable) (floor : Power) :
    (expression .standard layer floor).Stops
      fun _ read => (Symbol.tier floor.tier).Viable read := by
  have hfloor : floor.tier ≤ 4 := by cases floor <;> decide
  refine Stops.bind ((operand_stops hsound h).mono ?_) (operand_yields hsound) ?_
  · rintro kind read ⟨phrase, levels, next, value, hbegins, hvalue⟩
    exact .of_completion hbegins (.loosen (.tightest hvalue) (Nat.le_refl 4) hfloor)
  · rintro kind first left ⟨levels, -, hleft⟩
    refine Stops.returning ((Expression.many_stops hsound h floor).mono ?_)
    rintro next second hsecond rfl
    exact hsecond (Nat.le_refl 4) hfloor (operatorRank_le _) (.tightest hleft)

namespace Statement

theorem viable_nil : Symbol.statement.Viable [] :=
  have hvalue := derives_sampleTier .endOfInput (Nat.zero_le 4)
  .of_completion List.nil_prefix (@Derives.expression _ _ [] _ _ hvalue (.outside (.inr rfl)))

theorem ending_stops : ending.Stops fun _ read => read = [] := by
  refine Stops.select fun kind => ?_
  split
  · exact Stops.skip fun _ _ => rfl
  · exact Stops.pure ()
  · exact Stops.pure ()
  · exact Stops.failing _ fun _ _ => rfl
  · exact Stops.failing _ fun _ _ => rfl

theorem value_stops (hsound : layer.Sound free) (h : layer.Viable) (make : Expr → Stmt) :
    ((layer.expr .lowest).toParser >>= fun value => do
      ending
      pure (make value)).Stops fun _ read => (Symbol.tier 0).Viable read := by
  refine Stops.bind (h.expr .lowest) (hsound.expr .lowest) ?_
  rintro kind first value ⟨-, levels, -, hvalue⟩
  refine Stops.returning (ending_stops.mono ?_)
  rintro kind' second rfl -
  rw [List.append_nil]
  exact .of_derives hvalue

theorem binding_stops (hsound : layer.Sound free) (h : layer.Viable) :
    (binding layer).Stops fun _ read => Symbol.statement.Viable read := by
  have hbinding : ∀ {word name assign : Token} {read}, word.kind = .letWord →
      name.kind = .identifier → assign.kind = .assign → (Symbol.tier 0).Viable read →
        Symbol.statement.Viable (word :: name :: assign :: read) := by
    intro word name assign read hword hname hassign hread
    obtain ⟨phrase, levels, value, hbegins, hvalue⟩ := hread.behind (Symbol.admits_endOfInput 0)
    have hbinding := @Derives.binding word name assign levels phrase [] .endOfInput value hword
      hname hassign hvalue (.outside (.inr rfl))
    refine .of_completion ?_ hbinding
    simpa using hbegins
  have hnil : (Symbol.tier 0).Viable [] := tier_viable_nil (Nat.zero_le 4)
  have hassign : (Token.sample .assign).kind = .assign := rfl
  refine Stops.token_bind (fun _ => viable_nil) fun {word} hword =>
    Stops.token_bind (fun _ => ?_) fun {name} hname =>
    Stops.skip_bind (fun _ => ?_) fun {assign} hassign =>
    (value_stops hsound h _).mono fun hread => hbinding hword hname hassign hread
  · have hname : (Token.sample .identifier).kind = .identifier := rfl
    exact (hbinding hword hname hassign hnil).of_isPrefix (List.prefix_append [word] _)
  · exact (hbinding hword hname hassign hnil).of_isPrefix (List.prefix_append [word, name] _)

theorem result_stops (hsound : layer.Sound free) (h : layer.Viable) :
    (result layer).Stops fun _ read => Symbol.statement.Viable read := by
  refine Stops.token_bind (fun _ => viable_nil) fun {word} hword =>
    (value_stops hsound h _).mono fun {kind read} hread => ?_
  obtain ⟨phrase, levels, value, hbegins, hvalue⟩ := hread.behind (Symbol.admits_endOfInput 0)
  have hresult := @Derives.result word levels phrase [] .endOfInput value hword hvalue
    (.outside (.inr rfl))
  refine .of_completion ?_ hresult
  simpa using hbegins

theorem expression_stops (hsound : layer.Sound free) (h : layer.Viable) :
    (expression layer).Stops fun _ read => Symbol.statement.Viable read := by
  refine (value_stops hsound h _).mono fun {kind read} hread => ?_
  obtain ⟨phrase, levels, value, hbegins, hvalue⟩ := hread.behind (Symbol.admits_endOfInput 0)
  have hstmt := @Derives.expression levels phrase [] .endOfInput value hvalue (.outside (.inr rfl))
  refine .of_completion ?_ hstmt
  simpa using hbegins

theorem block_stops (h : layer.Viable) :
    (block layer).Stops fun _ read => Symbol.statement.Viable read := by
  refine Stops.returning (h.block.mono ?_)
  rintro kind read ⟨phrase, levels, next, body, hbegins, hbody⟩
  exact .of_completion hbegins (.blockStatement hbody)

end Statement

theorem statement_stops (hsound : layer.Sound free) (h : layer.Viable) :
    (statement .standard layer).Stops fun _ read => Symbol.statement.Viable read := by
  refine Stops.selecting fun kind => Stops.starting kind ?_
  split
  · rename_i rule _
    cases rule with
    | binding => exact (Statement.binding_stops hsound h).mono fun hread _ => hread
    | result => exact (Statement.result_stops hsound h).mono fun hread _ => hread
    | block => exact (Statement.block_stops h).mono fun hread _ => hread
  · exact (Statement.expression_stops hsound h).mono fun hread _ => hread

namespace Block

theorem viable_nil : Symbol.body.Viable [] :=
  have hempty : Derives .body 0 [] .closeBrace [] := .emptyBody
  .of_derives hempty

/-- A statement in front of the beginning of a body. -/
theorem viable_statements {levels : Nat} {next : Kind} {phrase second : List Token} {stmt : Stmt}
    (h : Derives .statement levels phrase (headKind next second) stmt)
    (hsecond : Symbol.body.Viable second) : Symbol.body.Viable (phrase ++ second) := by
  cases second with
  | nil => exact .of_derives (@Derives.statements _ _ phrase [] next stmt [] h .emptyBody)
  | cons token second =>
    obtain ⟨more, levels', next', body, ⟨tail, rfl⟩, hbody⟩ := hsecond
    exact .of_completion ((List.prefix_append_right_inj phrase).2 (List.prefix_append _ tail))
      (.statements h hbody)

theorem many_stops (hsound : layer.Sound free) (h : layer.Viable) :
    (Parser.many (turn .standard layer)).Stops fun _ read => Symbol.body.Viable read := by
  refine Stops.many (fun {kind last} hturn => ?_) (fun {kind item} hturn => ?_)
    (fun {kind item} hturn => ?_)
  · unfold turn at hturn
    split at hturn <;> cases hturn
    · exact Stops.skip fun _ _ => viable_nil
    · exact Stops.failing _ fun _ _ => viable_nil
  · unfold turn at hturn
    split at hturn <;> cases hturn
    · exact Stops.returning (Stops.accept fun _ _ => viable_nil)
    · refine Stops.returning ((statement_stops hsound h).mono ?_)
      rintro next read ⟨phrase, levels, next', stmt, hbegins, hstmt⟩ -
      refine .of_completion ?_ (@Derives.statements _ _ phrase [] next' stmt [] hstmt .emptyBody)
      rwa [List.append_nil]
  · unfold turn at hturn
    split at hturn <;> cases hturn
    · refine Yields.token_bind fun {stop} hstop => Yields.pure ?_
      rintro kind - next' second - ⟨phrase, levels, next, body, hbegins, hbody⟩
      exact .of_completion ((List.prefix_cons_inj stop).2 hbegins) (.emptyStatement hstop hbody)
    · refine Yields.returning ((statement_yields hsound).mono ?_)
      rintro next phrase stmt ⟨levels, -, hstmt⟩ - next' second rfl hsecond
      exact viable_statements hstmt hsecond

end Block

theorem bracedBlock_stops (hsound : layer.Sound free) (h : layer.Viable) :
    (bracedBlock .standard layer).Stops fun _ read => Symbol.block.Viable read := by
  refine Stops.token_bind (fun _ => block_viable_nil) fun {opening} hopening =>
    Stops.returning ((Block.many_stops hsound h).mono fun {kind read} hread => ?_)
  have hcloses : Symbol.body.Admits .closeBrace := .inl rfl
  obtain ⟨phrase, levels, body, hbegins, hbody⟩ := hread.behind hcloses
  have hblock : Derives .block (levels + 1) (opening :: phrase ++ [.sample .closeBrace])
      .terminator body := .block hopening hbody rfl
  refine .of_completion ?_ hblock
  exact (List.prefix_cons_inj opening).2 (hbegins.trans (List.prefix_append _ _))

theorem Layer.ofLevels_viable (free : Nat) : (Layer.ofLevels .standard free).Viable := by
  induction free with
  | zero => exact ⟨fun _ => Stops.of_tooDeep nestingLimit, Stops.of_tooDeep nestingLimit⟩
  | succ free ih =>
    have hsound := Layer.ofLevels_sound free
    exact ⟨fun floor => expression_stops hsound ih floor, bracedBlock_stops hsound ih⟩

end ShellFrontend
