import ShellFrontend.Proofs.Soundness

/-! # Beginnings of phrases

A phrase remains a phrase in front of almost any token, so that a beginning of it can be completed
wherever the phrase may stand. The completions are made of a few sample tokens.
-/

set_option autoImplicit false

namespace ShellFrontend

/-- The kinds that may stand behind a phrase of the nonterminal, whatever the phrase. -/
def Symbol.Admits : Symbol → Kind → Prop
  | block, _ => True
  | body, next | statement, next => next = .closeBrace ∨ next = .endOfInput
  | _, next => next ≠ .openParen

theorem Symbol.admits_closeParen (index : Nat) : (tier index).Admits .closeParen :=
  Kind.noConfusion

theorem Symbol.admits_endOfInput (index : Nat) : (tier index).Admits .endOfInput :=
  Kind.noConfusion

theorem Symbol.statement_admits_endOfInput : statement.Admits .endOfInput :=
  .inr rfl

theorem ne_openParen_of_closes {next : Kind} (h : next = .closeBrace ∨ next = .endOfInput) :
    next ≠ .openParen := by
  rcases h with rfl | rfl <;> decide

/-- A derivation does not depend on what stands behind its phrase, but for a name that would
become a call and a statement that would not have ended. -/
theorem Derives.retarget {symbol : Symbol} {levels : Nat} {phrase : List Token} {next next' : Kind}
    {tree : symbol.Tree} (h : Derives symbol levels phrase next tree)
    (hnext : symbol.Admits next') : Derives symbol levels phrase next' tree := by
  induction h generalizing next' with
  | tighter hindex _ ih => exact .tighter hindex (ih hnext)
  | binary hleft hop _ _ ih => exact .binary hleft hop (ih hnext)
  | tightest _ ih => exact .tightest (ih hnext)
  | unary hop _ ih => exact .unary hop (ih hnext)
  | operand _ ih => exact .operand (ih hnext)
  | literal h => exact .literal h
  | identifier h => exact .identifier h hnext
  | call h hopening hclosing => exact .call h hopening hclosing
  | callWith h hopening harguments hclosing => exact .callWith h hopening harguments hclosing
  | grouping hopening h hclosing => exact .grouping hopening h hclosing
  | conditional hword hopening hcondition hclosing _ _ _ ihconsequence ihother =>
    exact .conditional hword hopening hcondition hclosing (ihconsequence trivial) (ihother hnext)
  | function hword hparameters _ ih => exact .function hword hparameters (ih trivial)
  | lastArgument _ ih => exact .lastArgument (ih hnext)
  | argument h hcomma _ _ ih => exact .argument h hcomma (ih hnext)
  | noAlternative => exact .noAlternative
  | alternative hword _ ih => exact .alternative hword (ih trivial)
  | alternativeOnNextLine hbreak hword _ ih =>
    exact .alternativeOnNextLine hbreak hword (ih trivial)
  | block hopening h hclosing => exact .block hopening h hclosing
  | emptyBody => exact .emptyBody
  | emptyStatement hstop _ ih => exact .emptyStatement hstop (ih hnext)
  | @statements _ _ _ phrase' _ _ _ h _ ih ihtail =>
    cases phrase' with
    | nil => exact .statements (ih hnext) (ihtail hnext)
    | cons token phrase' => exact .statements h (ihtail hnext)
  | binding hword hname hassign h hstop ih =>
    cases hstop with
    | terminator hstop => exact .binding hword hname hassign h (.terminator hstop)
    | outside =>
      exact .binding hword hname hassign (ih (ne_openParen_of_closes hnext)) (.outside hnext)
  | result hword h hstop ih =>
    cases hstop with
    | terminator hstop => exact .result hword h (.terminator hstop)
    | outside => exact .result hword (ih (ne_openParen_of_closes hnext)) (.outside hnext)
  | expression h hstop ih =>
    cases hstop with
    | terminator hstop => exact .expression h (.terminator hstop)
    | outside => exact .expression (ih (ne_openParen_of_closes hnext)) (.outside hnext)
  | blockStatement _ ih => exact .blockStatement (ih trivial)

/-- Tokens that begin a phrase of the nonterminal. -/
def Symbol.Viable (symbol : Symbol) (read : List Token) : Prop :=
  ∃ phrase levels next tree, read <+: phrase ∧ Derives symbol levels phrase next tree

/-- A token of a kind whose text does not matter. -/
def Token.sample (kind : Kind) : Token :=
  ⟨kind, "", .between "" 0 0⟩

namespace Symbol.Viable

variable {symbol : Symbol} {read : List Token} {levels : Nat} {phrase : List Token} {next : Kind}

theorem of_completion {tree : symbol.Tree} (hread : read <+: phrase)
    (h : Derives symbol levels phrase next tree) : symbol.Viable read :=
  ⟨phrase, levels, next, tree, hread, h⟩

theorem of_derives {tree : symbol.Tree} (h : Derives symbol levels phrase next tree) :
    symbol.Viable phrase :=
  of_completion (List.prefix_refl phrase) h

theorem of_isPrefix {more : List Token} (h : symbol.Viable more) (hread : read <+: more) :
    symbol.Viable read := by
  obtain ⟨phrase, levels, next, tree, hmore, hderives⟩ := h
  exact ⟨phrase, levels, next, tree, hread.trans hmore, hderives⟩

theorem behind (h : symbol.Viable read) (hnext : symbol.Admits next) :
    ∃ phrase levels tree, read <+: phrase ∧ Derives symbol levels phrase next tree := by
  obtain ⟨phrase, levels, next, tree, hread, hderives⟩ := h
  exact ⟨phrase, levels, tree, hread, hderives.retarget hnext⟩

end Symbol.Viable

section samples

variable (next : Kind)

theorem derives_sample : Derives .operand 0 [.sample .trueWord] next (.boolean true) :=
  .literal (.yes rfl)

theorem derives_sampleTier {index : Nat} (hindex : index ≤ 4) :
    Derives (.tier index) 0 [.sample .trueWord] next (.boolean true) :=
  .loosen (.tightest (.operand (derives_sample next))) (Nat.le_refl 4) hindex

theorem derives_sampleBlock :
    Derives .block 1 [.sample .openBrace, .sample .closeBrace] next [] :=
  .block rfl .emptyBody rfl

end samples

theorem operand_viable_nil : Symbol.operand.Viable [] :=
  .of_completion List.nil_prefix (derives_sample .terminator)

theorem unary_viable_nil : Symbol.unary.Viable [] :=
  .of_completion List.nil_prefix (.operand (derives_sample .terminator))

theorem tier_viable_nil {index : Nat} (hindex : index ≤ 4) : (Symbol.tier index).Viable [] :=
  .of_completion List.nil_prefix (derives_sampleTier .terminator hindex)

theorem block_viable_nil : Symbol.block.Viable [] :=
  .of_completion List.nil_prefix (derives_sampleBlock .terminator)

namespace Separated

variable {α : Type} {found found' : Kind → List Token → α → Prop} {phrase : List Token}
  {values : List α}

theorem mono (h : Separated found phrase values)
    (hweaker : ∀ {kind phrase value}, found kind phrase value → found' kind phrase value) :
    Separated found' phrase values := by
  induction h with
  | last h => exact .last (hweaker h)
  | more h hcomma _ ih => exact .more (hweaker h) hcomma ih

end Separated

namespace Derives

variable {free free' : Nat} {phrase : List Token} {values : List Expr}

theorem IsArgument.mono {next : Kind} {value : Expr} (h : IsArgument free next phrase value)
    (hle : free ≤ free') : IsArgument free' next phrase value := by
  obtain ⟨levels, hlevels, hvalue⟩ := h
  exact ⟨levels, Nat.le_trans hlevels hle, hvalue⟩

/-- The arguments of a call have derivations within one number of levels. -/
theorem IsArgument.exists_free
    (h : Separated (fun kind phrase value => ∃ free, IsArgument free kind phrase value) phrase
      values) : ∃ free, Separated (IsArgument free) phrase values := by
  induction h with
  | last h =>
    obtain ⟨free, hvalue⟩ := h
    exact ⟨free, .last hvalue⟩
  | more h hcomma _ ih =>
    obtain ⟨free, hvalue⟩ := h
    obtain ⟨free', htail⟩ := ih
    exact ⟨max free free', .more (hvalue.mono (Nat.le_max_left ..)) hcomma
      (htail.mono fun hvalue => hvalue.mono (Nat.le_max_right ..))⟩

theorem exists_call {name : Token} (hname : name.kind = .identifier) (next : Kind)
    (h : CommaList.Encloses (fun kind phrase value => ∃ free, IsArgument free kind phrase value)
      phrase values) :
    ∃ levels, Derives .operand levels (name :: phrase) next (.call name.text values) := by
  obtain ⟨free, hlist⟩ : ∃ free, CommaList.Encloses (IsArgument free) phrase values := by
    obtain ⟨opening, closing, hopening, hclosing, hempty | ⟨more, hphrase, hmore⟩⟩ := h
    · exact ⟨0, opening, closing, hopening, hclosing, .inl hempty⟩
    · obtain ⟨free, hmore⟩ := IsArgument.exists_free hmore
      exact ⟨free, opening, closing, hopening, hclosing, .inr ⟨more, hphrase, hmore⟩⟩
  have hcall : DerivesWithin .operand free (name :: phrase) next (.call name.text values) :=
    call_of_encloses hname hlist
  obtain ⟨levels, -, hcall⟩ := hcall
  exact ⟨levels, hcall⟩

end Derives

end ShellFrontend
